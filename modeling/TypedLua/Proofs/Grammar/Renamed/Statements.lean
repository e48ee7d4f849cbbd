import TypedLua.Proofs.Grammar.Module
import TypedLua.Proofs.Grammar.Renamed.Declarations

/-!
# Grammar.Renamed.Statements

Reading modules when the parameters of one interface are renamed.  Outside of that interface both
sides read the same tokens, and what they bind goes together: this is a correspondence of parsers, in
which the first one may fail.  Types and interfaces are read as in the modules before this one.

Main statement: `Respelling.module_follows`.
-/

namespace TypedLua

open Text TypedLua.Parser
open Token (Kind Place)

variable {N : Respelling} {w : Sides} {s t : ParserState}

namespace Respelling

/-! ## The correspondence -/

/-- States outside of the interface whose parameters are renamed. -/
def outside (N : Respelling) : Correspondence where
  World := Sides
  types := N.types
  vars := .same
  regard := .names
  ordered _ _ := True
  ordered_mono _ _ _ := .intro
  state := N.State none N.plain
  env e f := e.file.Agree .names f.file
  lenient := True
  rooted := False
  parametric := False

theorem State.get? (h : N.State none N.plain w s t) (id : VariableId) :
    N.declared.option.rel w (s.session.vars.get? id) (t.session.vars.get? id) :=
  N.declared.getElem? h.vars id.index

theorem outside_passes {kind : Kind} (hkind : kind ≠ .kwInterface) : N.outside.Passes kind := by
  rintro w s t h rfl hcounts
  obtain ⟨u, hok⟩ := hcounts .intro
  obtain ⟨-, ⟨-, hs, ht⟩ | ⟨hs, ht⟩⟩ := Token.Stream.next_cases h.tokens.kinds_eq hok
  · -- both stay at the end of the text
    have hs' : s.next.stream = s.stream := hs
    have ht' : t.next.stream = t.stream := ht
    exact { h with
      tokens := by rw [hs', ht']; exact h.tokens
      last := by rw [hs']; exact h.last
      occurs := by rw [hs']; exact h.occurs
      imports := by rw [hs']; exact h.imports }
  · have htokens := h.tokens
    rw [hs, ht] at htokens
    exact h.advanced hs (htokens.tail fun _ => hkind)

/-- Outside interfaces nothing is renamed, and readings correspond. -/
theorem outside_lawful (N : Respelling) : N.outside.Lawful where
  current {w s t} h := by
    refine ⟨h.kind_eq.symm, ?_, .intro⟩
    rw [h.text_eq]
    split <;> rfl
  peek {w s t} count h hcounts := by
    obtain ⟨token, htoken⟩ := hcounts .intro
    obtain ⟨token', htoken', hkind⟩ := Token.Stream.peek_kind_eq count h.tokens.kinds_eq htoken
    rw [htoken, htoken']
    exact .ok hkind.symm
  length h := (Token.Stream.length_upcoming_eq h.tokens.kinds_eq).symm
  spanned _ _ := .intro
  next {w s t} h hcounts := by
    obtain ⟨u, hok⟩ := hcounts .intro
    rw [hok, (Token.Stream.next_cases h.tokens.kinds_eq hok).1]
    exact .ok rfl
  passes hkind := outside_passes hkind
  depth h := h.depth
  typeless h := .inr (by rw [h.config])
  scopes h := h.scopes
  deepened n h := h.deepened n
  primitive p _ := .primitive _ p
  void _ hxy := Sides.Corresponds.eq_primitive_iff hxy .void
  vararg h hxy := by
    rw [h.left, h.right]
    exact Sides.Corresponds.isVararg_eq hxy
  checked _ _ _ := .intro
  denotes h _ := h.elim
  typeOf {w s t x y} h hxy := by
    obtain rfl : x = y := hxy
    have hvar := h.get? x
    unfold VariableArena.typeOf
    generalize s.session.vars.get? x = a, t.session.vars.get? x = b at hvar ⊢
    cases hvar with
    | none => exact .primitive w .any
    | some hvar => exact hvar.type
  nameOf {w s t x y} h hxy := by
    obtain rfl : x = y := hxy
    have hvar := h.get? x
    unfold VariableArena.nameOf
    generalize s.session.vars.get? x = a, t.session.vars.get? x = b at hvar ⊢
    cases hvar with
    | none => rfl
    | some hvar => exact hvar.name
  intern {w s t a b} h hab ha := by
    -- a parameter is not formed here, and only parameters are renamed
    have hlayers : w.Layers N.back a b := .of_rel hab (by rintro name rfl; exact ha)
    obtain ⟨v, hwv, hleft, hright, hid⟩ := Sides.intern hlayers
    rw [← h.left] at hleft hid
    rw [← h.right] at hright hid
    have hstate := h.retyped hwv
    rw [hleft, hright] at hstate
    exact ⟨v, hwv, hid, hstate⟩
  alloc {w s t a b} h hab := by
    have hsize : s.session.vars.size = t.session.vars.size := List.Forall₂.length_eq h.vars
    refine ⟨w, le_refl w, congrArg VariableId.mk hsize, ?_⟩
    exact { h with vars := List.rel_append h.vars (.cons hab .nil) }
  modified h _ _ hfg := h.rescoped (ScopeStack.rel_modifyCurrent h.scopes hfg)

/-- What follows the renamed copy anywhere corresponds outside. -/
theorem agrees_of_follows {α : Type} {k : Option Kind} {R : Link Sides α α} {p : Parser α}
    (h : ∀ s t, N.State none N.plain w s t → Follows w s t p p (N.Both none N.plain R)) :
    N.outside.AgreesAt k w R p p := by
  intro env env' _ s t hst _ hcounts
  obtain ⟨x, hx⟩ := hcounts .intro
  obtain ⟨v, y, t', hwv, hrun, hxy, hstate⟩ := h s t hst env env' x _ (Prod.ext hx rfl)
  rw [hx, hrun]
  exact ⟨v, hwv, .ok hxy, hstate⟩

theorem outside_readable (N : Respelling) : N.outside.Readable where
  toLawful := N.outside_lawful
  rescoped h hab := h.rescoped hab
  sameFile h := h
  types room w := agrees_of_follows fun _ _ h => ReadsType.typeWithin room N.typed_plain h
  interfaces room w := agrees_of_follows fun _ _ h =>
    Follows.interfaceOf (fun _ => .typeWithin room) h
  imported w := by
    -- nothing is imported
    intro env env' _ s t h hkind
    have hmem : some (Kind.kwImport, s.stream.current.text) ∈ s.stream.contents := by
      rw [← hkind _ rfl]
      exact List.mem_cons_self
    exact absurd hmem (h.imports _)

/-- A module is read if its renamed copy is, and they correspond. -/
theorem module_follows (h : N.State none N.plain w s t) {env : ParserEnv} (env' : ParserEnv)
    (henv : env.file.Agree .names env'.file) {m : Module} {s' : ParserState}
    (hrun : Grammar.module env s = (.ok m, s')) :
    ∃ v m' t', Grammar.module env' t = (.ok m', t') ∧ s'.session.types = v.left ∧
      t'.session.types = v.right ∧
      N.declared.list.rel v s'.session.vars.vars t'.session.vars.vars := by
  obtain ⟨v, -, hm, hv⟩ := N.outside_readable.module.meet henv h fun _ => ⟨m, by rw [hrun]⟩
  rw [hrun] at hm hv
  cases hm' : Grammar.module env' t with
  | mk r t' =>
    rw [hm'] at hm hv
    cases hm with
    | ok _ => exact ⟨v, _, t', rfl, hv.left, hv.right, hv.vars⟩

end Respelling

end TypedLua
