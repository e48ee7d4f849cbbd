import TypedLua.Proofs.Grammar.Boundaries
import TypedLua.Proofs.Grammar.Nesting
import TypedLua.Proofs.Grammar.WrittenTypeReading

/-!
# Grammar.Refused

Annotations that are nested too deep.  Where names mean primitives, the words of a proper annotation
are read as a type of its structure or there is no room for it, and a type that is read is nested no
deeper than there is room; so an annotation that is nested deeper is refused for that reason and no
other.  A module that starts with such an annotation is refused with it.

Main statements: `refused_type` and `refused_module`.
-/

namespace TypedLua

open Text
open Token (Kind)

/-- Reading where names mean primitives, and those that they should. -/
def Course.knowing (Γ : WrittenType.Context) : Course where
  Leads s t := s.Adds (fun _ => True) t ∧ (Course.naming Γ).Leads s t
  trans h h' := ⟨h.1.trans h'.1, (Course.naming Γ).trans h.2 h'.2⟩
  right h := ⟨.refl h.1.after, (Course.naming Γ).right h.2⟩
  next h hnext hkind :=
    ⟨(Course.primitive _).next h.1 hnext hkind, (Course.naming Γ).next h.2 hnext hkind⟩
  deepened n h := ⟨(Course.primitive _).deepened n h.1, (Course.naming Γ).deepened n h.2⟩
  declared v h := ⟨(Course.primitive _).declared v h.1, (Course.naming Γ).declared v h.2⟩

namespace Grammar

variable {Γ : WrittenType.Context} {env : ParserEnv} {s : ParserState} {e : WrittenType}
  {room : Nat} {w : Word} {ws : List Word}

theorem exists_of_refused {α : Type} {p : Parser α} {F : Fault → Prop}
    (h : Ends env s p (fun _ _ => False) F) : ∃ f t, p env s = (.error f, t) ∧ F f := by
  cases hrun : p env s with
  | mk r t =>
    cases r with
    | ok a => exact (h.ok hrun).elim
    | error f => exact ⟨f, t, rfl, h.error hrun⟩

theorem refused_bind {α β : Type} {p : Parser α} {f : α → Parser β} {F : Fault → Prop}
    (h : Ends env s p (fun _ _ => False) F) : Ends env s (p >>= f) (fun _ _ => False) F :=
  Runs.bind h fun _ _ hnone => hnone.elim

/-- An annotation that a token comes after means what it says, and is nested deeper than constructs
may be open. -/
structure DeepBefore (Γ : WrittenType.Context) (e : WrittenType) (w : Word) : Prop where
  proper : e.Proper Γ
  admits : Admits e w.1
  bracket : w.1 ≠ .leftBracket
  deep : nestingLimit + (e.tree Γ).uncounted < (e.tree Γ).depth

/-- Where annotations stand in a module that defines no types. -/
def rootContext (config : Config) : WrittenType.Context where
  names name := (rootScope.types.find? name).map TypeArena.primitives.unfold
  untyped := config.typelessFunctions

theorem begun_basic (stream : Token.Stream) (session : Session)
    (h : session.types = .primitives) : (begun { stream, session }).Basic := by
  refine ⟨?_, ?_⟩
  · show session.types.Grounded
    rw [h]
    exact TypeArena.primitives_grounded
  · refine List.forall_mem_cons.2 ⟨rootScope_namesPrimitives, fun scope hscope => ?_⟩
    cases hscope

theorem begun_knows (stream : Token.Stream) (session : Session)
    (h : session.types = .primitives) :
    (begun { stream, session }).Knows (rootContext session.config) := by
  have hgrounded := (begun_basic stream session h).grounded
  refine ⟨hgrounded, fun name tree hname => ?_, rfl⟩
  obtain ⟨id, hid, hunfold⟩ := Option.map_eq_some_iff.1 hname
  obtain ⟨p, rfl⟩ := rootScope_namesPrimitives name id hid
  refine ⟨p.typeId, ?_, hgrounded.holds_primitive p, ?_⟩
  · show List.findSome? _ [rootScope] = _
    rw [List.findSome?_cons, hid]
  · show session.types.unfold p.typeId = tree
    rw [h]
    exact hunfold

/-- A type that is nested too deep is refused. -/
theorem refused_type (hroom : room ≤ nestingLimit) (hs : s.Basic) (hknows : s.Knows Γ)
    (he : DeepBefore Γ e w) (h : s.stream.Ahead (e.spelling ++ w :: ws)) :
    Ends env s (typeWithin room) (fun _ _ => False) TooDeep := by
  have htypes : ReadsTypes Γ TooDeep env (typeWithin room) id := readsTypes_typeWithin room
  have hreads := htypes.takes he.proper he.admits he.bracket h hknows.leads
  have hyields : (Course.primitive fun _ => True).Yields env s (typeWithin room) (HasRoom room) :=
    yields_typeWithin room (fun _ _ => .intro) s
  refine ⟨fun hrun => ?_, hreads.error⟩
  -- the type would be nested no deeper than there is room
  obtain ⟨-, -, -, htree⟩ := hreads.ok hrun
  obtain ⟨-, -, hcounted⟩ := (hyields (.refl hs)).ok hrun
  have hdepth := hcounted.depth_le
  have hdeep := he.deep
  rw [htree] at hdepth
  omega

/-- The words of a variable that is declared with an annotation. -/
def declarationWords (name : String) (e : WrittenType) : List Word :=
  (.identifier, name) :: Kind.colon.word :: e.spelling

theorem refused_localsOf (hroom : room ≤ nestingLimit) (hs : s.Basic) (hknows : s.Knows Γ)
    (he : DeepBefore Γ e w) {name : String} (expr : Parser Expr)
    (h : s.stream.Ahead (Kind.kwLocal.word :: (declarationWords name e ++ w :: ws))) :
    Ends env s (localsOf (typeWithin room) expr) (fun _ _ => False) TooDeep := by
  have hs' : (Course.knowing Γ).Leads s s := ⟨.refl hs, hknows.leads⟩
  unfold localsOf
  refine Runs.currentSpan_bind ?_
  refine Runs.bind (Course.Takes.expect h rfl (by simp) rfl hs') fun _ t ht => ?_
  obtain ⟨hst, ht, -⟩ := ht
  refine refused_bind (refused_bind ?_)
  have hst' := (Course.knowing Γ).right hst
  refine Runs.bind (Course.Takes.identifier ht (by simp) hst') fun x u hu => ?_
  obtain ⟨htu, hu, -⟩ := hu
  refine refused_bind ?_
  unfold declaredTypeOf
  have htu' := (Course.knowing Γ).right htu
  refine Runs.bind (Course.Takes.eat hu rfl (by simp) rfl htu') fun found v hv => ?_
  obtain ⟨huv, hv, rfl⟩ := hv
  exact refused_type hroom huv.1.after huv.2.2.1 he hv

theorem refused_statement (hroom : room < nestingLimit) (hdepth : s.depth < nestingLimit)
    (hs : s.Basic) (hknows : s.Knows Γ) (he : DeepBefore Γ e w) {name : String}
    (h : s.stream.Ahead (Kind.kwLocal.word :: (declarationWords name e ++ w :: ws))) :
    Ends env s (statementWithin (room + 1)) (fun _ _ => False) TooDeep := by
  have hdeepen : Ends env s (Parser.deepen "statement")
      (fun _ t => t = { s with depth := s.depth + 1 }) TooDeep := by
    refine Runs.gets_bind ?_
    rw [if_pos hdepth]
    exact Runs.of_ok rfl rfl
  unfold statementWithin
  refine Runs.bind hdeepen fun _ t ht => ?_
  obtain rfl := ht
  refine Runs.restoring ?_
  unfold statementOf
  refine Runs.currentSpan_bind ?_
  refine Runs.currentKind_bind ?_
  have hkind : s.stream.current.kind = .kwLocal := h.kind
  rw [hkind]
  exact refused_bind (refused_localsOf (s := { s with depth := s.depth + 1 }) (Nat.le_of_lt hroom)
    ⟨hs.grounded, hs.scopes⟩ ⟨hknows.grounded, hknows.named, hknows.untyped⟩ he _ h)

/-- So is a module with a local variable of that type. -/
theorem refused_module {stream : Token.Stream} {session : Session}
    (htypes : session.types = .primitives) (he : DeepBefore (rootContext session.config) e w)
    {name : String}
    (h : stream.Ahead (Kind.kwLocal.word :: (declarationWords name e ++ w :: ws))) :
    Ends env { stream, session } module (fun _ _ => False) TooDeep := by
  have hs := begun_basic stream session htypes
  have hknows := begun_knows stream session htypes
  unfold module
  refine Runs.gets_bind ?_
  refine refused_bind ?_
  unfold blockOf
  refine Runs.currentSpan_bind ?_
  refine refused_bind (Runs.withScope ?_)
  refine Runs.gets_bind ?_
  show Ends env (begun { stream, session })
    (statementsOf (statementWithin nestingLimit) .eof (stream.upcoming.length + 1)) _ _
  have hkind : stream.current.kind = .kwLocal := h.kind
  unfold statementsOf
  refine Runs.check_bind ?_
  rw [show (begun { stream, session }).stream.current.kind = .kwLocal from hkind,
    if_neg (by decide)]
  refine Runs.check_bind ?_
  rw [show (begun { stream, session }).stream.current.kind = .kwLocal from hkind,
    if_neg (by decide)]
  refine Runs.bind (Course.Takes.eat_ne h Kind.noConfusion hknows.leads) fun found t ht => ?_
  obtain ⟨-, -, rfl, rfl⟩ := ht
  have hdepth : (begun { stream, session }).depth < nestingLimit := Nat.zero_lt_succ _
  exact refused_bind (refused_statement (by decide) hdepth hs hknows he h)

end Grammar

end TypedLua
