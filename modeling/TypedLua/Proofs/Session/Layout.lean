import Mathlib.Order.Basic
import TypedLua.Proofs.Grammar.Module
import TypedLua.Proofs.Session.Runs
import TypedLua.Proofs.Token.Tiling
import TypedLua.Proofs.Tree.Alike
import TypedLua.Proofs.Tree.Unplaced
import TypedLua.Proofs.Typing.Correspondence

/-!
# Session.Layout

Layout does not matter.  Two texts that have the same tokens, wherever these stand and however they
are written, are compiled alike: both or none are refused, with the same messages, and what is given
back and what is left in the session differ in places only.  Places are carried along and never
looked at: parsers whose states differ in places only correspond.  A module that is imported is the
same for both, and is loaded in sessions that differ in places only, so the same holds along all
imports.

Main statement: `compile_layout`.
-/

namespace TypedLua

open Text
open Token (Kind Stream)

/-! ## Streams -/

/-- The token without its place. -/
def Token.unplaced (t : Token) : Token := { t with span := {} }

namespace Token.Stream

/-- The stream without the places of its tokens. -/
def unplaced (s : Stream) : Stream where
  current := s.current.unplaced
  position := {}
  upcoming := s.upcoming.map (unplacedWith Token.unplaced)

theorem next_unplaced (s : Stream) :
    s.unplaced.next = (unplacedWith id s.next.1, s.next.2.unplaced) := by
  obtain ⟨current, position, upcoming⟩ := s
  cases upcoming with
  | nil => rfl
  | cons r rest => cases r <;> rfl

theorem peek_unplaced (count : Nat) (s : Stream) :
    s.unplaced.peek count = unplacedWith Token.unplaced (s.peek count) := by
  induction count generalizing s with
  | zero => rfl
  | succ count ih =>
    unfold peek
    rw [next_unplaced]
    show (if s.current.kind = .eof then _ else _) = _
    by_cases heof : s.current.kind = .eof
    · rw [if_pos heof, if_pos heof]
      rfl
    · rw [if_neg heof, if_neg heof]
      obtain ⟨r, t⟩ := s.next
      cases r with
      | error f => rfl
      | ok x => exact ih t

end Token.Stream

/-! ## Texts with the same tokens -/

namespace Token

/-- The two texts have the same readings, but for their places. -/
def SameReadings (text text' : String) : Prop :=
  (readings text).map (unplacedWith unplaced) = (readings text').map (unplacedWith unplaced)

theorem SameReadings.refl (text : String) : SameReadings text text := rfl

theorem unplaced_eq_of_content {ts ts' : List Token} (h : ts.map content = ts'.map content) :
    ts.map unplaced = ts'.map unplaced := by
  have hsay : ∀ us : List Token,
      us.map unplaced = (us.map content).map fun c => ⟨c.1, c.2, {}⟩ := by
    intro us
    rw [List.map_map]
    rfl
  rw [hsay ts, hsay ts', h]

/-- Texts with the same tokens have the same readings. -/
theorem SameReadings.of_tokenize {text text' : String} {ts ts' : List Token}
    (h : tokenize text = .ok ts) (h' : tokenize text' = .ok ts')
    (hsame : ts.map content = ts'.map content) : SameReadings text text' := by
  have hall : ∀ us : List Token,
      (us.map (Except.ok : Token → Reading)).map (unplacedWith unplaced) =
        (us.map unplaced).map .ok := by
    intro us
    rw [List.map_map, List.map_map]
    rfl
  unfold SameReadings
  rw [readings_of_tokenize h, readings_of_tokenize h', hall, hall, unplaced_eq_of_content hsame]

/-- Streams of such texts differ in places only. -/
theorem SameReadings.ofSource {text text' : String} (h : SameReadings text text') :
    unplacedWith Stream.unplaced (Stream.ofSource text) =
      unplacedWith Stream.unplaced (Stream.ofSource text') := by
  unfold SameReadings at h
  unfold Stream.ofSource Stream.next
  dsimp only
  generalize readings text = rs at h ⊢
  generalize readings text' = rs' at h ⊢
  cases rs with
  | nil =>
    cases rs' with
    | nil => rfl
    | cons r' rest' => cases h
  | cons r rest =>
    cases rs' with
    | nil => cases h
    | cons r' rest' =>
      obtain ⟨hhead, hrest⟩ := List.cons.inj h
      cases r with
      | error f =>
        cases r' with
        | ok t' => cases hhead
        | error f' => exact congrArg Except.error (Except.error.inj hhead)
      | ok t =>
        cases r' with
        | error f' => cases hhead
        | ok t' =>
          have htoken : t.unplaced = t'.unplaced := Except.ok.inj hhead
          show Except.ok (Stream.mk t.unplaced {} (rest.map (unplacedWith unplaced))) =
            Except.ok (Stream.mk t'.unplaced {} (rest'.map (unplacedWith unplaced)))
          rw [htoken, hrest]

end Token

/-- Places are not compared, and texts by their tokens. -/
def Regard.tokens : Regard := ⟨fun _ _ => True, Token.SameReadings, False⟩

theorem found_of_unplaced {α : Type} {u : α → α} {r : α → α → Prop} {x y : Except Fault α}
    (h : unplacedWith u x = unplacedWith u y) (hr : ∀ a b, u a = u b → r a b) :
    Link.ResultRel Regard.tokens.place r x y := by
  cases x with
  | error f =>
    cases y with
    | error g =>
      have hfault : f.unplaced = g.unplaced := Except.error.inj h
      have hcause : f.unplaced.cause = g.unplaced.cause := by rw [hfault]
      exact .error_of hcause .intro
    | ok b => cases h
  | ok a =>
    cases y with
    | error g => cases h
    | ok b => exact .ok (hr a b (Except.ok.inj h))

/-! ## Parsers that differ in places -/

/-- Sessions that differ in places, and in what was printed. -/
structure Session.Laid (s t : Session) : Prop where
  config : s.config = t.config
  types : s.types = t.types
  vars : s.vars.unplaced = t.vars.unplaced
  loading : s.loading = t.loading
  reported : s.reported.map Diagnostic.unplaced = t.reported.map Diagnostic.unplaced

/-- Parsers that differ in places. -/
structure ParserState.Laid (s t : ParserState) : Prop where
  stream : s.stream.unplaced = t.stream.unplaced
  scopes : s.scopes = t.scopes
  depth : s.depth = t.depth
  session : s.session.Laid t.session

namespace Session.Laid

variable {s t : Session}

theorem typeOf_eq (h : s.Laid t) (x : VariableId) : s.vars.typeOf x = t.vars.typeOf x := by
  rw [← VariableArena.typeOf_unplaced, h.vars, VariableArena.typeOf_unplaced]

theorem nameOf_eq (h : s.Laid t) (x : VariableId) : s.vars.nameOf x = t.vars.nameOf x := by
  rw [← VariableArena.nameOf_unplaced, h.vars, VariableArena.nameOf_unplaced]

theorem messages_eq (h : s.Laid t) :
    s.reported.map Diagnostic.message = t.reported.map Diagnostic.message := by
  have hmessages := congrArg (List.map Diagnostic.message) h.reported
  rwa [List.map_map, List.map_map] at hmessages

end Session.Laid

/-- The correspondence of sessions that differ in places. -/
def laid : SessionLink where
  World := Unit
  order := PUnit.instLinearOrder.toPreorder
  types := .same
  vars := .same
  regard := .tokens
  rel _ _ := Session.Laid

/-- The correspondence of parsers that differ in places. -/
def laidOut : Correspondence where
  World := Unit
  order := PUnit.instLinearOrder.toPreorder
  types := .same
  vars := .same
  regard := .tokens
  ordered _ _ := True
  ordered_mono _ _ _ := .intro
  state _ := ParserState.Laid
  env e f := e.files = f.files ∧ e.file.Agree .tokens f.file ∧ laid.Loads e.load f.load
  rooted := False

theorem laidOut_passes (kind : Kind) : laidOut.Passes kind := by
  intro w s t h _ _
  have hnext := congrArg (·.next.2) h.stream
  simp only [Token.Stream.next_unplaced] at hnext
  exact { h with stream := hnext }

theorem laidOut_intern {w : laidOut.World} {s t : ParserState} {a b : Shape} (h : s.Laid t)
    (hab : laidOut.types.shape.rel w a b) : laidOut.Interns w s t a b := by
  obtain rfl := Shape.Rel.eq hab fun _ _ h => h
  unfold Correspondence.Interns
  rw [h.session.types]
  exact ⟨w, le_refl w, rfl, { h with session := { h.session with types := rfl } }⟩

theorem laidOut_lawful : laidOut.Lawful where
  current h :=
    ⟨congrArg (·.current.kind) h.stream, congrArg (·.current.text) h.stream, .intro⟩
  peek {w s t} count h _ := by
    have hpeek := congrArg (·.peek count) h.stream
    simp only [Token.Stream.peek_unplaced] at hpeek
    refine found_of_unplaced hpeek fun a b hab => ?_
    show a.unplaced.kind = b.unplaced.kind
    rw [hab]
  length h := by
    have hlength := congrArg (·.upcoming.length) h.stream
    simpa only [Token.Stream.unplaced, List.length_map] using hlength
  spanned _ _ := .intro
  next {w s t} h _ := by
    have hnext := congrArg (·.next.1) h.stream
    simp only [Token.Stream.next_unplaced] at hnext
    exact found_of_unplaced hnext fun _ _ hab => hab
  passes _ := laidOut_passes _
  depth h := h.depth
  typeless h := .inr (by rw [h.session.config])
  scopes h := Link.scopes_same.2 h.scopes
  deepened n h := { h with depth := rfl }
  primitive _ _ := rfl
  void _ hxy := by rw [show _ = _ from hxy]
  vararg h hxy := by rw [show _ = _ from hxy, h.session.types]
  checked _ _ _ := .intro
  denotes h _ := h.elim
  typeOf h hxy := by
    rw [show _ = _ from hxy, h.session.typeOf_eq]
    rfl
  nameOf h hxy := by rw [show _ = _ from hxy, h.session.nameOf_eq]
  intern h hab _ := laidOut_intern h hab
  alloc {w s t a b} h hab := by
    have halloc := VariableArena.alloc_unplaced s.session.vars a
    rw [hab.unplaced_eq, h.session.vars, VariableArena.alloc_unplaced] at halloc
    obtain ⟨hid, hvars⟩ := Prod.mk.inj halloc
    exact ⟨w, le_refl w, hid.symm, { h with session := { h.session with vars := hvars.symm } }⟩
  modified {w s t f g} h _ _ hfg := by
    -- the scopes are the same on both sides, so both are changed in one way
    obtain rfl : f = g := funext fun x => Link.scope_same.1 (hfg x x (Link.scope_same.2 rfl))
    exact { h with scopes := congrArg (ScopeStack.modifyCurrent · f) h.scopes }

theorem laidOut_instantiates : laidOut.Instantiates where
  passes := laidOut_passes
  shapes {w s t x y} h hxy := by
    rw [h.session.types]
    exact (TypeArena.Seen.refl _).shapes hxy
  instantiated {w s t x y xs ys} h hxy hargs := by
    cases hxy
    cases Link.list_same.1 hargs
    rw [h.session.types]
    exact ⟨w, le_refl w, Link.option_same.2 rfl, { h with session := { h.session with types := rfl } }⟩

/-- Readings of such texts correspond. -/
theorem laidOut_full : laidOut.Full where
  toLawful := laidOut_lawful
  rescoped h hab := { h with scopes := Link.scopes_same.1 hab }
  sameFile h := h.2.1
  interned h hab _ := laidOut_intern h hab
  parameterised := .intro
  files h := h.1
  loading h := h.session.loading
  load {w s t e f path text} henv h _ _ := by
    obtain ⟨v, hwv, hm, hv⟩ := henv.2.2 [] w path text text (.refl text) _ _ h.session
    exact .inr ⟨v, hwv, hm, { h with session := hv }⟩
  named := laidOut_lawful.readsNamed laidOut_instantiates

/-! ## Calls -/

namespace Session

/-- Calls on such texts keep sessions in correspondence. -/
theorem laid_lawful : laid.Lawful where
  report {loading w s t a b file file'} cause _ _ h := by
    refine { h with reported := ?_ }
    show List.map _ (s.reported ++ [_]) = List.map _ (t.reported ++ [_])
    rw [List.map_append, List.map_append, h.reported]
    rfl
  mark key h := { h with loading := congrArg (key :: ·) h.loading }
  unmark h := { h with loading := congrArg List.tail h.loading }
  read {loading w f g file file'} files hload hfile := by
    intro s t h
    have hsource := Token.SameReadings.ofSource hfile.text
    unfold readModule startParser
    generalize Token.Stream.ofSource file.text = source at hsource ⊢
    generalize Token.Stream.ofSource file'.text = source' at hsource ⊢
    have hfound := found_of_unplaced hsource fun _ _ hab => hab
    cases hfound with
    | error cause hab => exact ⟨w, le_refl w, .error cause hab, h⟩
    | @ok stream stream' hstream =>
      have henv : laidOut.env ⟨files, file, f⟩ ⟨files, file', g⟩ := ⟨rfl, hfile, hload⟩
      have hstart : ParserState.Laid { stream, session := s } { stream := stream', session := t } :=
        ⟨hstream, rfl, rfl, h⟩
      obtain ⟨v, hwv, hm, hv⟩ := laidOut_full.module.run id henv hstart
      exact ⟨v, hwv, hm, hv.session⟩
  check {loading w s t m n} hmn h := by
    have hvars : VariablesMatch (W := Unit) .same .same w s.vars t.vars :=
      ⟨fun _ hxy => (h.typeOf_eq _).trans (congrArg _ hxy),
        fun _ hxy => (h.nameOf_eq _).trans (congrArg _ hxy)⟩
    have hA : ArenasInStep (W := Unit) .tokens .same fun _ a b => a = b :=
      equal_inStep (fun _ _ => .intro) fun _ => .intro
    obtain ⟨v, hwv, hr, htypes⟩ := inStep_moduleCheck hA s.config hvars hmn _ _ h.types
    rw [show n.check t.config t.vars t.types = n.check s.config t.vars t.types by rw [h.config]]
    exact ⟨v, hwv, hr, { h with types := htypes }⟩

/-! ## Layout -/

/-- **Layout does not matter.**  Of two texts with the same kinds and texts of tokens, both or none
are refused; the messages are the same; and the trees, the types and the variables are the same, but
for places and the texts that are kept. -/
theorem compile_layout {text text' : String} {tokens tokens' : List Token}
    (h : Token.tokenize text = .ok tokens) (h' : Token.tokenize text' = .ok tokens')
    (hsame : tokens.map Token.content = tokens'.map Token.content) (files : FileTree) (path : Path)
    (s : Session) :
    let found := compile files path text s
    let found' := compile files path text' s
    found.1.isSome = found'.1.isSome ∧
      found.2.reported.map Diagnostic.message = found'.2.reported.map Diagnostic.message ∧
      found.1.map Module.unplaced = found'.1.map Module.unplaced ∧
      found.2.types = found'.2.types ∧
      found.2.vars.unplaced = found'.2.vars.unplaced := by
  intro found found'
  have hreadings := Token.SameReadings.of_tokenize h h' hsame
  obtain ⟨_, -, hmodule, hsession⟩ := laid_lawful.compile files s.loading () path text text'
    hreadings s s ⟨rfl, rfl, rfl, rfl, rfl⟩
  refine ⟨Link.isSome_eq hmodule, hsession.messages_eq, ?_, hsession.types, hsession.vars⟩
  generalize found.1 = m, found'.1 = n at hmodule ⊢
  cases hmodule with
  | none => rfl
  | some hmn => exact congrArg some hmn.unplaced_eq

/-- The same module, once on three lines with a comment, and once without blanks and with other
quotes. -/
theorem compile_layout_quotes :
    let files : FileTree := ⟨"/", [(["lib.lua"], .text "export local x: string = \"one\"")]⟩
    let path : Path := ⟨"main.lua"⟩
    let text := "import \x7b x \x7d from \"./lib\" -- the library\n\nlocal y, z = x, \"it's\"\n"
    let text' := "import\x7bx\x7dfrom[[./lib]]local y,z=x,'it\\'s'"
    ∃ tokens tokens' m m', Token.tokenize text = .ok tokens ∧ Token.tokenize text' = .ok tokens' ∧
      tokens.map Token.content = tokens'.map Token.content ∧
      (compile files path text {}).1 = some m ∧ (compile files path text' {}).1 = some m' ∧
      m.block.span ≠ m'.block.span ∧ m.unplaced = m'.unplaced ∧
      (compile files path text {}).2.reported.map Diagnostic.message =
        (compile files path text' {}).2.reported.map Diagnostic.message ∧
      (compile files path text {}).2.types = (compile files path text' {}).2.types ∧
      (compile files path text {}).2.vars.unplaced =
        (compile files path text' {}).2.vars.unplaced := by
  intro files path text text'
  obtain ⟨tokens, h, hsay⟩ : ∃ tokens, Token.tokenize text = .ok tokens ∧
      (Token.tokenize text').toOption.any (fun tokens' =>
        decide (tokens.map Token.content = tokens'.map Token.content)) = true :=
    exists_of_ok (by decide +kernel)
  obtain ⟨tokens', h', hsame⟩ := exists_of_ok hsay
  have hspans : (compile files path text {}).1.map (·.block.span) =
      some ⟨⟨1, 0, 0⟩, ⟨3, 22, 64⟩⟩ := by decide +kernel
  have hspans' : (compile files path text' {}).1.map (·.block.span) =
      some ⟨⟨1, 0, 0⟩, ⟨1, 41, 41⟩⟩ := by decide +kernel
  obtain ⟨-, hmessages, hmodule, htypes, hvars⟩ := compile_layout h h' hsame files path {}
  obtain ⟨m, hm, hspan⟩ := Option.map_eq_some_iff.1 hspans
  obtain ⟨m', hm', hspan'⟩ := Option.map_eq_some_iff.1 hspans'
  rw [hm, hm'] at hmodule
  refine ⟨tokens, tokens', m, m', h, h', hsame, hm, hm', ?_, Option.some.inj hmodule, hmessages,
    htypes, hvars⟩
  rw [hspan, hspan']
  decide

end Session

end TypedLua
