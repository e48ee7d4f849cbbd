import TypedLua.Grammar.Expression
import TypedLua.Proofs.Grammar.Correspondence

/-!
# Grammar.Expression

Reading expressions keeps a legible correspondence.  No type is interned on the way; the entries of
constructors allocate variables.

Main statement: `Legible.expressionWithin`.
-/

namespace TypedLua.Correspondence.Legible

open Text TypedLua.Parser
open Token (Kind)

variable {C : Correspondence} {w : C.World} {k : Option Kind} {α β : Type} {R : Link C.World α β}
  (hC : C.Legible)
variable {a b : Span} {p q : Parser Expr}

include hC

/-! ## Names and groups -/

theorem resolve (name : String) (hab : C.regard.place a b) :
    C.Agrees w C.expr (Grammar.resolve name a) (Grammar.resolve name b) := by
  refine .gets_bind fun s t hst => ?_
  have hvar := ScopeStack.rel_resolveVariable (hC.scopes hst) name
  have htype := ScopeStack.rel_resolveType (hC.scopes hst) name
  generalize s.scopes.resolveVariable name = x, t.scopes.resolveVariable name = y at hvar ⊢
  cases hvar with
  | some hxy =>
    refine .gets_bind fun s' t' hst' => .pure ?_
    exact .reference hxy ⟨hab, (hC.typeOf hst' hxy)⟩
  | none =>
    generalize s.scopes.resolveType name = x, t.scopes.resolveType name = y at htype ⊢
    cases htype with
    | some hxy => exact .pure (.typeName name ⟨hab, hxy⟩)
    | none => exact .fail hab _

theorem operandOf (h : ∀ w, C.Agrees w C.expr p q) :
    C.Agrees w C.expr (Grammar.operandOf p) (Grammar.operandOf q) := by
  refine hC.currentKind_bind fun kind => ?_
  split
  · refine hC.currentSpan_bind fun a b hab => hC.advance_bind (hC.passes (by decide)) ?_
    refine (h w).bind fun v e d _ hed => hC.expect_bind .rightParen (by decide) fun _ _ _ => ?_
    exact hC.spanFrom_bind hab fun _ _ hab => .pure (.group hed ⟨hab, hed.type⟩)
  · exact hC.identifier_bind fun name _ _ hab => hC.resolve name hab
  · exact hC.unexpected "expression"

/-! ## Suffixes -/

theorem argumentsOf (h : ∀ w, C.Agrees w C.expr p q) :
    C.Agrees w C.expr.list (Grammar.argumentsOf p) (Grammar.argumentsOf q) := by
  have hclose : ∀ v es ds, C.expr.list.rel v es ds →
      C.Agrees v C.expr.list (Parser.expect .rightParen >>= fun _ => pure es)
        (Parser.expect .rightParen >>= fun _ => pure ds) :=
    fun v es ds heds => hC.expect_bind .rightParen (by decide) fun _ _ _ => .pure heds
  refine hC.check_bind .rightParen (.here (hclose w [] [] .nil)) ?_
  exact (hC.commaList h).bind fun v es ds _ heds => hclose v es ds heds

theorem anyTag_bind (hab : C.regard.place a b) {p : Span → Parser α} {q : Span → Parser β}
    (h : ∀ a b, Tag.Agree C.regard (C.types.rel w) ⟨a, .any⟩ ⟨b, .any⟩ → C.AgreesAt k w R (p a) (q b)) :
    C.AgreesAt k w R (spanFrom a >>= p) (spanFrom b >>= q) :=
  hC.spanFrom_bind hab fun a b hab => .of_state fun _ _ hst =>
    h a b ⟨hab, (hC.primitive .any hst)⟩

/-- Suffixes of expressions that correspond do so. -/
theorem suffixOf (h : ∀ w, C.Agrees w C.expr p q) {e d : Expr} (hed : C.expr.rel w e d)
    (hab : C.regard.place a b) :
    C.Agrees w C.expr (Grammar.suffixOf p e a) (Grammar.suffixOf q d b) := by
  refine hC.currentKind_bind fun kind => ?_
  split
  · refine hC.advance_bind (hC.passes (by decide)) ((hC.argumentsOf h).bind fun v es ds hle heds => ?_)
    exact hC.anyTag_bind hab fun _ _ htag => .pure (.call (C.expr.mono hle hed) heds htag)
  · refine hC.take_bind (hC.passes (by decide)) fun m n hmn => ?_
    refine hC.anyTag_bind hab fun _ _ htag => .of_state fun s t hst => .pure ?_
    rw [hmn.2.1]
    have hstring := Tag.Literal.of_primitive hmn.2.2 (hC.primitive .string hst)
    exact .call hed (.cons (.string n.text hstring) .nil) htag
  · refine hC.advance_bind (hC.passes (by decide)) (hC.identifier_bind fun name _ _ _ => ?_)
    exact hC.anyTag_bind hab fun _ _ htag => .pure (.member name hed htag)
  · refine hC.advance_bind (hC.passes (by decide)) ((h w).bind fun v k l hle hkl => ?_)
    refine hC.expect_bind .rightBracket (by decide) fun _ _ _ => ?_
    exact hC.anyTag_bind hab fun _ _ htag => .pure (.index (C.expr.mono hle hed) hkl htag)
  · exact .pure hed

/-! ## Constructors -/

theorem entryOf (h : ∀ w, C.Agrees w C.expr p q) :
    C.Agrees w C.expr (Grammar.entryOf p) (Grammar.entryOf q) := by
  unfold Grammar.entryOf Grammar.atNamedEntry
  rw [bind_assoc, bind_assoc]
  refine hC.check_bind .identifier (.here ?_) (h w)
  simp only [if_true, bind_assoc, pure_bind]
  refine hC.peekKind_bind 1 fun kind => ?_
  split
  · refine hC.currentSpan_bind fun a b hab => hC.identifier_bind fun name _ _ hname => ?_
    refine hC.expect_bind .equals (by decide) fun _ _ _ => (h w).bind fun v e d _ hed => ?_
    refine (hC.allocVariable (Variable.rel_mk name false hname hed.type)).bind fun v₁ x y hle hxy => ?_
    have hed := C.expr.mono hle hed
    exact hC.spanFrom_bind hab fun _ _ hab =>
      .pure (.entry hxy hed ⟨hab, hed.type⟩)
  · exact h w

theorem constructorOf (h : ∀ w, C.Agrees w C.expr p q) :
    C.Agrees w C.expr (Grammar.constructorOf p) (Grammar.constructorOf q) := by
  refine hC.currentSpan_bind fun a b hab => hC.expect_bind .leftBrace (by decide) fun _ _ _ => ?_
  refine (hC.braceTail fun u => hC.entryOf (w := u) h).bind fun v es ds _ heds => ?_
  exact hC.anyTag_bind hab fun _ _ htag => .pure (.constructor heds htag)

/-! ## Expressions -/

theorem numberLiteral :
    C.AgreesAt (some .number) w C.expr Grammar.numberLiteral Grammar.numberLiteral := by
  refine hC.current_bind fun m n hmn => ?_
  have hnumber : C.FoundRel Eq (Grammar.numberOf m.text m.span) (Grammar.numberOf n.text n.span) := by
    unfold Grammar.numberOf
    rw [hmn.2.1]
    split
    · exact .ok rfl
    · exact .error _ hmn.2.2
  refine AgreesAt.ofExcept_bind (Q := .same) (fun _ => hnumber) fun value _ heq => ?_
  cases heq
  refine hC.advance_bind (hC.passes (by decide)) (.of_state fun s t hst => .pure ?_)
  exact .number value (.of_primitive hmn.2.2 (hC.primitive .number hst))

theorem formOf {p' q' : Parser Expr} (h : ∀ w, C.Agrees w C.expr p q)
    (h' : ∀ w, C.Agrees w C.expr p' q') :
    C.Agrees w C.expr (Grammar.formOf p p') (Grammar.formOf q q') := by
  refine hC.currentSpan_bind fun a b hab => hC.currentKind_bind fun kind => ?_
  split
  · exact hC.numberLiteral
  · refine hC.take_bind (hC.passes (by decide)) fun m n hmn => .of_state fun s t hst => ?_
    rw [hmn.2.1]
    exact .pure (.string n.text (.of_primitive hab (hC.primitive .string hst)))
  · refine hC.advance_bind (hC.passes (by decide)) (.of_state fun s t hst => .pure ?_)
    exact .boolean true (.of_primitive hab (hC.primitive .boolean hst))
  · refine hC.advance_bind (hC.passes (by decide)) (.of_state fun s t hst => .pure ?_)
    exact .boolean false (.of_primitive hab (hC.primitive .boolean hst))
  · refine hC.advance_bind (hC.passes (by decide)) (.of_state fun s t hst => .pure ?_)
    exact .nil (.of_primitive hab (hC.primitive .nil hst))
  · exact .here (hC.constructorOf h)
  · exact .here (h' w)
  · exact .here (h' w)
  · exact hC.unexpected "expression"

theorem primaryOf (h : ∀ w, C.Agrees w C.expr p q) {f g : Expr → Span → Parser Expr}
    (hfg : ∀ w e d a b, C.expr.rel w e d → C.regard.place a b → C.Agrees w C.expr (f e a) (g d b)) :
    C.Agrees w C.expr (Grammar.primaryOf p f) (Grammar.primaryOf q g) :=
  hC.currentSpan_bind fun _ _ hab => (hC.operandOf h).bind fun v e d _ hed =>
    hC.chain (hfg v e d _ _ hed hab)

/-- By induction on how deep expressions may still be nested. -/
theorem expressionWithin_and_suffixesWithin (room : Nat) :
    (∀ w, C.Agrees w C.expr (Grammar.expressionWithin room) (Grammar.expressionWithin room)) ∧
      ∀ w e d a b, C.expr.rel w e d → C.regard.place a b →
        C.Agrees w C.expr (Grammar.suffixesWithin room e a) (Grammar.suffixesWithin room d b) := by
  induction room with
  | zero =>
    refine ⟨fun w => ?_, fun w e d a b hed hab => ?_⟩
    · unfold Grammar.expressionWithin
      exact hC.tooDeep "expression"
    · unfold Grammar.suffixesWithin
      refine hC.currentKind_bind fun kind => ?_
      split
      · exact hC.tooDeep "expression"
      · exact .pure hed
  | succ room ih =>
    obtain ⟨hexpr, hsuffix⟩ := ih
    refine ⟨fun w => ?_, fun w e d a b hed hab => ?_⟩
    · unfold Grammar.expressionWithin
      exact hC.nested "expression" (hC.formOf hexpr fun v => hC.primaryOf hexpr hsuffix)
    · unfold Grammar.suffixesWithin
      refine hC.currentKind_bind fun kind => ?_
      split
      · refine .here (hC.deepen_bind "expression" ((hC.suffixOf hexpr hed hab).bind ?_))
        exact fun v e' d' _ h => hsuffix v e' d' a b h hab
      · exact .pure hed

/-- Reading expressions keeps the correspondence. -/
theorem expressionWithin (room : Nat) (w : C.World) :
    C.Agrees w C.expr (Grammar.expressionWithin room) (Grammar.expressionWithin room) :=
  (hC.expressionWithin_and_suffixesWithin room).1 w

theorem primaryWithin (room : Nat) (w : C.World) :
    C.Agrees w C.expr (Grammar.primaryWithin room) (Grammar.primaryWithin room) :=
  hC.primaryOf (hC.expressionWithin room) (hC.expressionWithin_and_suffixesWithin room).2

end TypedLua.Correspondence.Legible
