import TypedLua.Proofs.Tree.Layout
import TypedLua.Proofs.Typing.Untyped

/-!
# Typing.Places

Where checking finds faults.  A fault lies at an expression that is checked, at several values of a
declaration, or at the end of a declaration; so it lies at a span of the text, if what is checked is
laid out over it.

Main statements: `Expr.Checks.isIn` and `moduleCheck_isIn`.
-/

namespace TypedLua

open Text Typing

variable {source : String} {vars : VariableArena}
variable {a : TypeArena} {span : Span} {f : Fault}

/-! ## Plans -/

/-- A call is refused at the call or at what is called. -/
theorem callPlan_span {callee : TypeId} {count : Nat} {calleeSpan : Span}
    (h : callPlan a callee count calleeSpan span = .error f) :
    f.span = span ∨ f.span = calleeSpan := by
  unfold callPlan at h
  split at h
  · dsimp only at h
    split at h
    · cases h
      exact .inl rfl
    · cases h
  · split at h
    · cases h
    · cases h
      exact .inr rfl

theorem memberType_span {object : TypeId} {name : String}
    (h : memberType a object name span = .error f) : f.span = span := by
  unfold memberType at h
  split at h
  · cases h
  · split at h
    · cases h
    · cases h
      rfl

theorem elementType_span {object : TypeId} (h : elementType a object span = .error f) :
    f.span = span := by
  unfold elementType at h
  split at h
  · cases h
  · cases h
  · cases h
  · split at h
    · cases h
    · cases h
      rfl

/-- A constructor is refused where it stands. -/
theorem constructorPlan_span {demand : Demand} {entries : List Expr}
    (h : constructorPlan a vars demand entries span = .error f) : f.span = span := by
  unfold constructorPlan at h
  split at h
  · cases h
  · split at h
    · cases h
    · split at h
      · cases h
        rfl
      · unfold arrayPlan at h
        split at h
        · cases h
        · split at h
          · cases h
          · cases h
            rfl

theorem mismatch?_span {report : Option Mismatch} {demand : Demand} {type : TypeId}
    (h : mismatch? a report demand type span = some f) : f.span = span := by
  unfold mismatch? at h
  split at h
  · split at h
    · cases h
    · cases h
      rfl
  · cases h

/-! ## Expressions -/

theorem Expr.LaidAll.laid {first last : Nat} {es : List Expr}
    (h : Expr.LaidAll P first es last) : ∀ e ∈ es, e.Laid P := by
  induction es generalizing first with
  | nil => exact nofun
  | cons e es ih =>
    intro d hd
    rcases List.mem_cons.1 hd with rfl | hd
    · exact h.1
    · exact ih h.2.2 d hd

theorem Expr.Laid.parts {e : Expr} (h : e.Laid P) : ∀ d ∈ e.parts, d.Laid P := by
  cases e with
  | call => exact List.forall_mem_cons.2 ⟨h.2.1, h.2.2.2.laid⟩
  | index => simp [Expr.parts, h.2.1, h.2.2.1]
  | member | group | entry => simp [Expr.parts, h.2.1]
  | constructor => exact h.2.laid
  | _ => simp [Expr.parts]

mutual

/-- The fault of an expression is inside it. -/
theorem Expr.Checks.isIn {e e' : Expr} {demand : Demand} {f : Fault} {a b : TypeArena} :
    e.Checks vars demand a e' (.error f) b → e.Laid P → P f.span
  | .unresolved, hlaid => hlaid
  | .group h _, hlaid | .entry h _, hlaid | .object h, hlaid => h.isIn hlaid.2.1
  | .callee h hplan, hlaid => by
    rcases error_of_bind hplan with rfl | ⟨type, rfl, hplan⟩
    · exact h.isIn hlaid.2.1
    · rcases callPlan_span hplan with heq | heq
      · rw [heq]
        exact hlaid.1
      · rw [heq, h.span_eq]
        exact hlaid.2.1.span
  | .call _ _ heach hfound _, hlaid => by
    obtain rfl := error_of_map hfound
    exact heach.isIn hlaid.2.2.2.laid
  | .member h hfound _, hlaid => by
    rcases error_of_bind hfound with rfl | ⟨type, -, hmember⟩
    · exact h.isIn hlaid.2.1
    · rw [memberType_span hmember]
      exact hlaid.1
  | .index _ hkey hfound _, hlaid => by
    rcases error_of_bind hfound with rfl | ⟨type, -, helement⟩
    · exact hkey.isIn hlaid.2.2.1
    · rw [elementType_span helement]
      exact hlaid.1
  | .unplanned hplan, hlaid => by
    rw [constructorPlan_span hplan]
    exact hlaid.1
  | .entries _ heach, hlaid => heach.isIn hlaid.2.laid

theorem Expr.ChecksEach.isIn {report : Option Mismatch} {es es' : List Expr}
    {demands : List Demand} {f : Fault} {a b : TypeArena} :
    Expr.ChecksEach vars report es demands a es' (.error f) b → (∀ e ∈ es, e.Laid P) →
      P f.span
  | .fault h, hlaid => h.isIn (List.forall_mem_cons.1 hlaid).1
  | .mismatch h hmismatch, hlaid => by
    rw [mismatch?_span hmismatch, h.span_eq]
    exact (List.forall_mem_cons.1 hlaid).1.span
  | .cons _ _ heach hfound, hlaid => by
    obtain rfl := error_of_map hfound
    exact heach.isIn (List.forall_mem_cons.1 hlaid).2

end

mutual

theorem Expr.Amends.isIn {e e' : Expr} {found : Except Fault Unit} {f : Fault}
    {a b : TypeArena} : e.Amends vars a e' found b → found = .error f → e.Laid P →
      P f.span
  | .constructor h hfound, hf, hlaid => by
    obtain rfl := error_of_map (hfound.trans hf)
    exact h.isIn hlaid
  | .parts _ hall, hf, hlaid => hall.isIn hf hlaid.parts

theorem Expr.AmendsAll.isIn {es es' : List Expr} {found : Except Fault Unit} {f : Fault}
    {a b : TypeArena} : Expr.AmendsAll vars es a es' found b → found = .error f →
      (∀ e ∈ es, e.Laid P) → P f.span
  | .nil, hf, _ => by cases hf
  | .fault h, hf, hlaid => h.isIn hf (List.forall_mem_cons.1 hlaid).1
  | .cons _ hall, hf, hlaid => hall.isIn hf (List.forall_mem_cons.1 hlaid).2

end

/-! ## Declarations -/

theorem valuesSpan_isIn {values : List Expr} {first last : Nat} (hspan : span.IsIn source)
    (h : Expr.LaidAll (Span.IsIn source) first values last) :
    (valuesSpan values span).IsIn source := by
  unfold valuesSpan
  split
  · next e d he hd =>
    cases values with
    | nil => cases he
    | cons e' values =>
      cases he
      -- the last value starts no earlier than the first one
      have hfrom : Expr.LaidAll (Span.IsIn source) e.span.start.offset (e :: values) last :=
        ⟨h.1, Nat.le_refl _, h.2.2⟩
      obtain ⟨hlaid, hle⟩ := hfrom.getLast hd
      exact ⟨h.1.span.start, hlaid.span.stop, hle.trans hlaid.span.le⟩
  · exact hspan

/-! ## Statements -/

variable {config : Config}

mutual

/-- The fault of a statement is in the text. -/
theorem Stmt.Checks.isIn {m m' : Stmt} {f : Fault} {a b : TypeArena} :
    m.Checks config vars a m' (.error f) b → m.Laid (Span.IsIn source) → f.span.IsIn source
  | .expression h hfound, hlaid => by
    obtain rfl := error_of_map hfound
    exact h.isIn hlaid.2.1
  | .imbalanced _, hlaid => valuesSpan_isIn hlaid.1 hlaid.2
  | .locals _ h hfound, hlaid => by
    obtain rfl := error_of_map hfound
    refine h.isIn fun e he => ?_
    -- a value that is left out stands at the end of the declaration
    rcases List.mem_append.1 he with he | he
    · exact hlaid.2.laid e he
    · rw [List.eq_of_mem_replicate he]
      exact Span.IsIn.point hlaid.1.stop
  | .exportStmt h, hlaid => h.isIn hlaid.2.1
  | .exportExpr h, hlaid => (Expr.amends_of_run _ h).isIn rfl hlaid.2.1
  | .block h, hlaid => h.isIn hlaid.2

theorem Stmt.ChecksAll.isIn {ms ms' : List Stmt} {f : Fault} {a b : TypeArena}
    {first last : Nat} : Stmt.ChecksAll config vars ms a ms' (.error f) b →
      Stmt.LaidAll (Span.IsIn source) first ms last → f.span.IsIn source
  | .fault h, hlaid => h.isIn hlaid.1
  | .cons _ hall, hlaid => hall.isIn hlaid.2.2

end

/-- **A fault that checking finds is in the text.** -/
theorem moduleCheck_isIn {m m' : Module} {b : TypeArena} (hlaid : m.block.Laid (Span.IsIn source))
    (h : m.check config vars a = ((m', .error f), b)) : f.span.IsIn source := by
  obtain ⟨body, hall, -⟩ := Module.check_iff.1 h
  obtain ⟨file, body, scope, span⟩ := m
  exact hall.isIn hlaid.2

end TypedLua
