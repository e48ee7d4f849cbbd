import TypedLua.Proofs.Grammar.Module
import TypedLua.Proofs.Session.Calls
import TypedLua.Proofs.Types.Renaming
import TypedLua.Proofs.Typing.Correspondence

/-!
# Session.Mirror

Two sessions that go through the same steps.  The second has a past: it holds types that the first
lacks, some variables come before those of the first, and some diagnostics before those of the
first. What happens in both from now on happens in the same way.  This is a full correspondence of
parsers.

Main statement: `mirror_full`.
-/

namespace TypedLua

open Text

/-! ## Mirrored sessions -/

/-- What the second session has of its own, and what both have while they are mirrored. -/
structure Past where
  config : Config
  /-- How many variables come before those of the first session. -/
  shift : Nat
  /-- The diagnostics that come before those of the first session. -/
  reported : List Diagnostic
  loading : List (List String)

/-- Variables correspond if their places differ by the shift. -/
def shifted (shift : Nat) : Link Renaming VariableId VariableId where
  rel _ x y := y.index = x.index + shift
  mono _ _ _ h := h

/-- The second session does what the first does, and has a past. -/
structure Session.Mirrors (past : Past) (w : Renaming) (s t : Session) : Prop where
  config_left : s.config = past.config
  config_right : t.config = past.config
  types : w.Matches s.types t.types
  /-- The past of the second session has its variables. -/
  shift_le : past.shift ≤ t.vars.size
  /-- The variables that come after them correspond. -/
  vars : (Renaming.types.declared Eq).list.rel w s.vars.vars (t.vars.vars.drop past.shift)
  /-- The first session is loading the given files. -/
  loading_left : s.loading = past.loading
  /-- The second session is loading the given files. -/
  loading_right : t.loading = past.loading
  reported : t.reported = past.reported ++ s.reported

namespace Session.Mirrors

variable {past : Past} {w : Renaming} {s t : Session}

theorem size_eq (h : Session.Mirrors past w s t) : t.vars.size = s.vars.size + past.shift := by
  have hlen := List.Forall₂.length_eq h.vars
  have hle := h.shift_le
  rw [List.length_drop] at hlen
  unfold VariableArena.size at hle ⊢
  omega

theorem get? (h : Session.Mirrors past w s t) {x y : VariableId}
    (hxy : (shifted past.shift).rel w x y) :
    (Renaming.types.declared Eq).option.rel w (s.vars.get? x) (t.vars.get? y) := by
  have hget := Link.getElem? _ h.vars x.index
  have hindex : y.index = past.shift + x.index := by
    rw [show y.index = x.index + past.shift from hxy, Nat.add_comm]
  rw [List.getElem?_drop, ← hindex] at hget
  exact hget

theorem typeOf (h : Session.Mirrors past w s t) {x y : VariableId}
    (hxy : (shifted past.shift).rel w x y) : w.Maps (s.vars.typeOf x) (t.vars.typeOf y) := by
  have hget := h.get? hxy
  unfold VariableArena.typeOf
  generalize s.vars.get? x = a, t.vars.get? y = b at hget ⊢
  cases hget with
  | none => exact h.types.primitive .any
  | some hab => exact hab.type

theorem nameOf_eq (h : Session.Mirrors past w s t) {x y : VariableId}
    (hxy : (shifted past.shift).rel w x y) : s.vars.nameOf x = t.vars.nameOf y := by
  have hget := h.get? hxy
  unfold VariableArena.nameOf
  generalize s.vars.get? x = a, t.vars.get? y = b at hget ⊢
  cases hget with
  | none => rfl
  | some hab => exact hab.name

theorem withTypes (h : Session.Mirrors past w s t) {v : Renaming} (hwv : w ≤ v) {a b : TypeArena}
    (hab : v.Matches a b) :
    Session.Mirrors past v { s with types := a } { t with types := b } :=
  { h with types := hab, vars := Link.mono _ hwv h.vars }

/-- Variables that correspond are declared alike. -/
theorem alloc (h : Session.Mirrors past w s t) {a b : Variable}
    (hab : (Renaming.types.declared Eq).rel w a b) :
    (shifted past.shift).rel w (VariableArena.alloc a s.vars).1 (VariableArena.alloc b t.vars).1 ∧
      Session.Mirrors past w { s with vars := (VariableArena.alloc a s.vars).2 }
        { t with vars := (VariableArena.alloc b t.vars).2 } := by
  refine ⟨h.size_eq, { h with shift_le := ?_, vars := ?_ }⟩
  · show past.shift ≤ (t.vars.vars ++ [b]).length
    have hle : past.shift ≤ t.vars.vars.length := h.shift_le
    rw [List.length_append]
    omega
  · show List.Forall₂ _ (s.vars.vars ++ [a]) ((t.vars.vars ++ [b]).drop past.shift)
    rw [List.drop_append_of_le_length h.shift_le]
    exact List.rel_append h.vars (.cons hab .nil)

end Session.Mirrors

/-! ## Mirrored parsers -/

/-- The parsers stand at one token of one text, in sessions that are mirrored. -/
structure ParserState.Mirrors (past : Past) (w : Renaming) (s t : ParserState) : Prop where
  stream : s.stream = t.stream
  scopes : (Link.scopes Renaming.types (shifted past.shift)).rel w s.scopes t.scopes
  depth : s.depth = t.depth
  lastEnd : s.lastEnd = t.lastEnd
  session : Session.Mirrors past w s.session t.session

/-- Mirrored sessions, whatever files are being loaded. -/
def mirrored (past : Past) : SessionLink where
  World := Renaming
  types := Renaming.types
  vars := shifted past.shift
  rel loading := Session.Mirrors { past with loading }

/-- What the parsers may consult is the same, but that they load modules into their sessions. -/
structure ParserEnv.Mirrors (past : Past) (e f : ParserEnv) : Prop where
  files : e.files = f.files
  file : e.file.Agree .all f.file
  load : (mirrored past).Loads e.load f.load

/-- The correspondence of mirrored parsers. -/
def mirror (past : Past) : Correspondence where
  World := Renaming
  types := Renaming.types
  vars := shifted past.shift
  ordered _ _ := True
  ordered_mono _ _ _ := .intro
  state := ParserState.Mirrors past
  env := ParserEnv.Mirrors past

variable {past : Past} {w : Renaming}

theorem isVararg_eq {a b : TypeArena} (h : w.Matches a b) {x y : TypeId} (hxy : w.Maps x y) :
    a.isVararg x = b.isVararg y := by
  obtain ⟨s, t, hs, ht, hst⟩ := h.embeds x y hxy
  unfold TypeArena.isVararg
  rw [hs, ht]
  cases hst <;> rfl

theorem ParserState.Mirrors.interned {s t : ParserState} (h : ParserState.Mirrors past w s t)
    {a b : Shape} (hab : Renaming.types.shape.rel w a b) : (mirror past).Interns w s t a b := by
  obtain ⟨v, hwv, hid, hv⟩ := h.session.types.intern hab
  refine ⟨v, hwv, hid, ?_⟩
  exact { h with scopes := Link.mono _ hwv h.scopes, session := h.session.withTypes hwv hv }

theorem mirror_passes (kind : Token.Kind) : (mirror past).Passes kind := by
  intro w s t h _ _
  refine { h with stream := ?_, lastEnd := ?_ }
  · show s.stream.next.2 = t.stream.next.2
    rw [h.stream]
  · show s.stream.current.span.stop = t.stream.current.span.stop
    rw [h.stream]

/-- Readings in a session and in a new one correspond. -/
theorem mirror_lawful (past : Past) : (mirror past).Lawful where
  current h := by
    rw [h.stream]
    exact ⟨rfl, rfl, rfl⟩
  peek count h _ := by
    rw [h.stream]
    exact .refl (fun a => (rfl : a.kind = a.kind)) fun _ => rfl
  length h := by rw [h.stream]
  spanned h hab := by
    cases hab
    rw [h.lastEnd]
    rfl
  next h _ := by
    rw [h.stream]
    exact .refl (fun _ => rfl) (fun _ => rfl)
  passes _ := mirror_passes _
  depth h := h.depth
  typeless h := .inr (by rw [h.session.config_left, h.session.config_right])
  scopes h := h.scopes
  deepened n h := { h with depth := rfl }
  primitive p h := h.session.types.primitive p
  void h hxy := h.session.types.alike.seen.eq_primitive_iff hxy .void
  vararg h hxy := isVararg_eq h.session.types hxy
  checked _ _ _ := .intro
  denotes _ h := h.session.types.left.primitive .void
  typeOf h hxy := h.session.typeOf hxy
  nameOf h hxy := h.session.nameOf_eq hxy
  intern h hab _ := h.interned hab
  alloc {w s t a b} h hab := by
    obtain ⟨hid, hsession⟩ := h.session.alloc hab
    exact ⟨w, le_refl w, hid, { h with session := hsession }⟩
  modified h _ _ hfg := { h with scopes := ScopeStack.rel_modifyCurrent h.scopes hfg }

theorem mirror_instantiates (past : Past) : (mirror past).Instantiates where
  passes kind := mirror_passes kind
  shapes h hxy := by
    obtain ⟨a, b, ha, hb, hab⟩ := h.session.types.embeds _ _ hxy
    rw [ha, hb]
    exact .some hab
  instantiated {w s t x y xs ys} h hxy hargs := by
    obtain ⟨v, hwv, hid, hv⟩ := Renaming.inStep_instantiate hxy hargs _ _ h.session.types
    refine ⟨v, hwv, hid, ?_⟩
    exact { h with scopes := Link.mono _ hwv h.scopes, session := h.session.withTypes hwv hv }

/-- So do imports and instances. -/
theorem mirror_full (past : Past) : (mirror past).Full where
  toLawful := mirror_lawful past
  interned h hab _ := h.interned hab
  rescoped h hab := { h with scopes := hab }
  parameterised := .intro
  files h := h.files
  sameFile h := h.file
  loading h := h.session.loading_left.trans h.session.loading_right.symm
  load {w s t e f path text} hef h _ _ := by
    obtain ⟨v, hwv, hm, hv⟩ := hef.load past.loading w path text text rfl _ _ h.session
    exact .inr ⟨v, hwv, hm, { h with scopes := Link.mono _ hwv h.scopes, session := hv }⟩
  named := (mirror_lawful past).readsNamed (mirror_instantiates past)

/-! ## Mirrored calls -/

theorem matches_inStep : ArenasInStep .all Renaming.types Renaming.Matches where
  upTo := Regard.all_upTo
  point := Regard.all_point
  alike h := h.alike.seen
  intern h _ := Renaming.inStep_intern h

/-- So do calls. -/
theorem mirrored_lawful (past : Past) : (mirrored past).Lawful where
  report {loading w s t a b file file'} cause hfile hab h := by
    obtain rfl : a = b := hab
    refine { h with reported := ?_ }
    show t.reported ++ [_] = past.reported ++ (s.reported ++ [_])
    rw [show t.reported = past.reported ++ s.reported from h.reported, List.append_assoc]
  mark key h :=
    { h with
      loading_left := congrArg (key :: ·) h.loading_left
      loading_right := congrArg (key :: ·) h.loading_right }
  unmark h :=
    { h with
      loading_left := congrArg List.tail h.loading_left
      loading_right := congrArg List.tail h.loading_right }
  read {loading w f g file file'} files hload hfile := by
    obtain rfl := hfile.eq
    intro s t hst
    unfold Session.readModule Session.startParser
    cases Token.Stream.ofSource file.text with
    | error f => exact ⟨w, le_refl w, .error f.cause rfl, hst⟩
    | ok stream =>
      have henv : ParserEnv.Mirrors { past with loading } ⟨files, file, f⟩ ⟨files, file, g⟩ :=
        ⟨rfl, hfile, hload⟩
      have hstart : ParserState.Mirrors { past with loading } w { stream, session := s }
          { stream, session := t } := ⟨rfl, .nil, rfl, rfl, hst⟩
      obtain ⟨v, hwv, hm, hv⟩ :=
        (mirror_full _).module.run id henv hstart
      exact ⟨v, hwv, hm, hv.session⟩
  check {loading w s t m n} hmn hst := by
    have hvars : VariablesMatch Renaming.types (shifted past.shift) w s.vars t.vars :=
      ⟨fun hle hxy => Renaming.types.mono hle (hst.typeOf hxy), fun _ hxy => hst.nameOf_eq hxy⟩
    have hright : n.check t.config t.vars t.types = n.check s.config t.vars t.types := by
      rw [hst.config_left, hst.config_right]
    rw [hright]
    obtain ⟨v, hwv, hr, hv⟩ := inStep_moduleCheck matches_inStep s.config hvars hmn _ _ hst.types
    exact ⟨v, hwv, hr, hst.withTypes hwv hv⟩

end TypedLua
