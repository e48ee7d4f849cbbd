import TypedLua.Proofs.Typing.Checked

/-!
# Typing.Retracing

Checking again.  What calls and constructors demand does not change while the arena grows, and the
types that a check interned are found the next time.  So an expression that was checked, in the
arena that the check left or a larger one, is checked along the same path: it stays as it is, with
the same type or the same fault, and no type is added.

Main statements: `Expr.Checks.again` for expressions and `moduleCheck_again` for modules.
-/

namespace TypedLua

open Text Typing

variable {a b c : TypeArena} {vars : VariableArena} {w : Arenas}
variable {x : TypeId} {demand : Demand} {values : List Expr}

/-! ## Demands in a larger arena -/

theorem eq_of_typeIds_option {x y : Demand} (h : Arenas.typeIds.option.rel w x y) : x = y := by
  cases h with
  | none => rfl
  | some h => rw [h.1]

theorem eq_of_typeIds_demands {xs ys : List Demand}
    (h : Arenas.typeIds.option.list.rel w xs ys) : xs = ys := by
  change List.Forall₂ _ xs ys at h
  induction h with
  | nil => rfl
  | cons hxy _ ih => rw [eq_of_typeIds_option hxy, ih]

theorem bind_congr_ok {α β : Type} {x : Except Fault α} {g h : α → Except Fault β}
    (hgh : ∀ y, x = .ok y → g y = h y) : x.bind g = x.bind h := by
  cases x with
  | error f => rfl
  | ok y => exact hgh y rfl

theorem eq_of_typeIds_result {x y : Except Fault TypeId}
    (h : (Arenas.typeIds.result Eq).rel w x y) : x = y := by
  cases h with
  | ok h => rw [h.1]
  | error _ h => rw [h]

/-- A call is planned the same in a larger arena. -/
theorem callPlan_extends (hw : w.Sound) (hc : w.types.Extends c) (hx : Arenas.typeIds.rel w x x)
    (count : Nat) (calleeSpan span : Span) :
    callPlan c x count calleeSpan span = callPlan w.types x count calleeSpan span := by
  have h := rel_callPlan (F := .all) (hw.grounded.alike hc).seen hx count
    (rfl : calleeSpan = _) (rfl : span = _)
  generalize callPlan w.types x count calleeSpan span = p, callPlan c x count calleeSpan span = q
    at h ⊢
  cases h with
  | error _ h => rw [show _ = _ from h]
  | @ok p q h =>
    obtain ⟨demands, result⟩ := p
    obtain ⟨demands', result'⟩ := q
    rw [show demands = demands' from eq_of_typeIds_demands h.demands,
      show result = result' from h.result.1]

theorem memberType_extends (hw : w.Sound) (hc : w.types.Extends c) (hx : Arenas.typeIds.rel w x x)
    (name : String) (span : Span) : memberType c x name span = memberType w.types x name span :=
  (eq_of_typeIds_result (rel_memberType (F := .all) (hw.grounded.alike hc).seen hx name rfl)).symm

theorem elementType_extends (hw : w.Sound) (hc : w.types.Extends c) (hx : Arenas.typeIds.rel w x x)
    (span : Span) : elementType c x span = elementType w.types x span :=
  (eq_of_typeIds_result (rel_elementType (F := .all) (hw.grounded.alike hc).seen hx rfl)).symm

theorem mismatch?_extends (hw : w.Sound) (hc : w.types.Extends c) (report : Option Mismatch)
    (hd : Arenas.typeIds.option.rel w demand demand) (hx : Arenas.typeIds.rel w x x) (span : Span) :
    mismatch? c report demand x span = mismatch? w.types report demand x span := by
  have h := rel_mismatch? (F := .all) (hw.grounded.alike hc).seen report hd hx (rfl : span = _)
  generalize mismatch? w.types report demand x span = m, mismatch? c report demand x span = n
    at h ⊢
  cases h with
  | none => rfl
  | @some f g h => rw [show f = g from Fault.mk.injEq .. |>.mpr ⟨h.2, h.1⟩]

theorem wanted_extends (hc : w.types.Extends c) (hd : Arenas.typeIds.option.rel w demand demand) :
    demand.bind c.get? = demand.bind w.types.get? := by
  cases hd with
  | none => rfl
  | some hx => exact hc.get?_eq hx.2

theorem arrayPlan_extends (hw : w.Sound) (hc : w.types.Extends c)
    (hd : Arenas.typeIds.option.rel w demand demand) (count : Nat) (span : Span) :
    arrayPlan c demand count span = arrayPlan w.types demand count span := by
  unfold arrayPlan
  have hdemand := rel_demandOf_bind (hw.grounded.alike hc).seen hd
  generalize demand.bind demandOf = wanted at hdemand ⊢
  cases hdemand with
  | none => rfl
  | some hx =>
    dsimp only
    rw [hc.get?_eq hx.2, (hw.grounded.alike hc).display_eq hx]

/-- So is a constructor, with or without types. -/
theorem constructorPlan_extends (hw : w.Sound) (hc : w.types.Extends c)
    (hd : Arenas.typeIds.option.rel w demand demand) {entries entries' : List Expr}
    (h : entries'.map Expr.untyped = entries.map Expr.untyped) (span : Span) :
    constructorPlan c vars demand entries' span =
      constructorPlan w.types vars demand entries span := by
  have hlabels := labels_eq_of_untyped h
  obtain ⟨hlength, hall, hany⟩ := isEntry_eq_of_labels hlabels
  have hempty : entries'.isEmpty = entries.isEmpty := by
    simpa only [List.isEmpty_map] using congrArg List.isEmpty hlabels
  unfold constructorPlan emptyPlan tablePlan
  rw [hempty, hall, hany, entryNames_eq_of_labels hlabels, wanted_extends hc hd,
    arrayPlan_extends hw hc hd, hlength]

/-! ## Types that are found again -/

/-- In a larger arena the type of a table is found again. -/
theorem tableResult_again (hb : b.Grounded) (hbc : b.Extends c) (hc : c.Canonical)
    {wanted : Option Shape} {names : List String} {types : List TypeId} {t : TypeId}
    (h : tableResult demand wanted names types a = (t, b)) :
    tableResult demand wanted names types c = (t, c) := by
  obtain ⟨table, b₁, htable, h⟩ := run_bind h
  have hget : b₁.get? table = some (.table _) := TypeArena.get?_of_intern htable
  -- without an interface that is wanted, the table is all that is interned
  have hplain : (table, b₁) = (t, b) → (pure table : StateM TypeArena TypeId) c = (t, c) := by
    intro h
    cases h
    rfl
  have hagain : b₁.Extends b → TypeArena.intern (.table _) c = (table, c) :=
    fun hb₁ => hc.intern_eq (hbc.get? (hb₁.get? hget))
  unfold tableResult
  split at h
  · next id name gs ps _ =>
    obtain ⟨shape, b₂, hshape, h⟩ := run_bind h
    obtain ⟨_, _, hread, h⟩ := run_bind h
    cases hread
    have hb₁ := TypeArena.extends_of_intern hshape
    have hgetShape : b₂.get? shape = some (.table _) := TypeArena.get?_of_intern hshape
    obtain rfl : b₂ = b := by
      split at h <;> exact (Prod.mk.inj h).2
    apply (bind_of_run (hagain hb₁)).trans
    apply (bind_of_run (hc.intern_eq (hbc.get? hgetShape))).trans
    -- the wanted shape takes the table as it did
    have hcompatible : c.compatible shape table = b₂.compatible shape table :=
      hb.compatible_eq hbc (TypeArena.holds_of_get? hgetShape)
        (TypeArena.holds_of_get? (hb₁.get? hget))
    apply get_bind_run.trans
    rw [hcompatible]
    split at h
    · next hfits =>
      cases h
      rw [if_pos hfits]
      rfl
    · next hfits =>
      cases h
      rw [if_neg hfits]
      rfl
  · next hother =>
    have hb₁ : b₁.Extends b := by
      cases h
      exact .refl _
    apply (bind_of_run (hagain hb₁)).trans
    exact hplain h

/-- So is the type of any constructor. -/
theorem Planned.result_again {a₀ : TypeArena} {entries : List Expr} {plan : ConstructorPlan}
    (hplan : Planned a₀ vars demand entries plan) (hb : b.Grounded) (hbc : b.Extends c)
    (hc : c.Canonical) {types : List TypeId} {t : TypeId} (h : plan.result types a = (t, b)) :
    plan.result types c = (t, c) := by
  cases hplan with
  | empty | unknown | wanted =>
    cases h
    rfl
  | table => exact tableResult_again hb hbc hc h
  | array => exact hc.intern_eq (hbc.get? (TypeArena.get?_of_intern h))

/-! ## Expressions -/

mutual

/-- A checked expression is checked to itself. -/
theorem Expr.Checks.again {w : Arenas} {e e' : Expr} {demand : Demand}
    {found : Except Fault TypeId} {b c : TypeArena} :
    e.Checks w.vars demand w.types e' found b → w.Sound → Arenas.expr.rel w e e →
      Arenas.typeIds.option.rel w demand demand → b.Extends c → c.Canonical →
      e'.Checks w.vars demand c e' found c
  | .plain hplain, _, _, _, _, _ => .plain hplain
  | .unresolved, _, _, _, _, _ => .unresolved
  | .reference, _, _, _, _, _ => .reference
  | .group h htag, hw, he, hd, hbc, hc => by
    cases he with
    | group he _ => exact .group (h.again hw he hd hbc hc) (Tag.settled_again htag)
  | .entry h htag, hw, he, hd, hbc, hc => by
    cases he with
    | entry _ he _ => exact .entry (h.again hw he hd hbc hc) (Tag.settled_again htag)
  | .callee h hplan, hw, he, _, hbc, hc => by
    cases he with
    | call he _ _ =>
      obtain ⟨-, hw₁, -, htype⟩ := h.sound hw he .none
      refine .callee (h.again hw he .none hbc hc) ?_
      -- the call is planned as it was, for a callee of the same type
      rcases error_of_bind hplan with rfl | ⟨type, rfl, hplan⟩
      · rfl
      · exact (callPlan_extends hw₁ hbc htype.of_ok _ _ _).trans hplan
  | .call h hplan heach hfound htag, hw, he, _, hbc, hc => by
    cases he with
    | call he harguments _ =>
      obtain ⟨hle, hw₁, -, htype⟩ := h.sound hw he .none
      have harguments := Arenas.expr.list.mono hle harguments
      have hdemands := callPlan_demands hw₁ htype.of_ok hplan
      obtain ⟨hle₂, -, -, -⟩ := heach.sound hw₁ harguments hdemands
      have hb₁ := hle₂.1.trans hbc
      rw [← length_eq_of_untyped heach.untyped, ← Tag.span_settled _ _, htag,
        ← callPlan_extends hw₁ hb₁ htype.of_ok] at hplan
      have hagain := heach.again hw₁ harguments hdemands hbc hc
      exact .call (h.again hw he .none hb₁ hc) hplan hagain hfound (Tag.settled_again htag)
  | .member h hfound htag, hw, he, _, hbc, hc => by
    cases he with
    | member _ he _ =>
      obtain ⟨-, hw₁, -, htype⟩ := h.sound hw he .none
      refine .member (h.again hw he .none hbc hc) ?_ (Tag.settled_again htag)
      rw [← hfound, ← htag, Tag.span_settled]
      exact bind_congr_ok fun x hx => memberType_extends hw₁ hbc (hx ▸ htype).of_ok _ _
  | .object h, hw, he, _, hbc, hc => by
    cases he with
    | index he _ _ => exact .object (h.again hw he .none hbc hc)
  | .index h hkey hfound htag, hw, he, _, hbc, hc => by
    cases he with
    | index he hekey _ =>
      obtain ⟨hle, hw₁, -, htype⟩ := h.sound hw he .none
      have hekey := Arenas.expr.mono hle hekey
      obtain ⟨hle₂, hw₂, -, -⟩ := hkey.sound hw₁ hekey .none
      have hobject := h.again hw he .none (hle₂.1.trans hbc) hc
      have hkey := hkey.again hw₁ hekey .none hbc hc
      refine .index hobject hkey ?_ (Tag.settled_again htag)
      rw [← hfound, ← htag, Tag.span_settled]
      have htype := Arenas.typeIds.mono hle₂ htype.of_ok
      exact bind_congr_ok fun _ _ => elementType_extends hw₂ hbc htype _
  | .unplanned hplan, hw, _, hd, hbc, _ =>
    .unplanned ((constructorPlan_extends hw hbc hd rfl _).trans hplan)
  | .entries hplan heach, hw, he, hd, hbc, hc => by
    cases he with
    | constructor hentries _ =>
      have hrel := constructorPlan_rel hw hd hentries hplan
      obtain ⟨hle, -, -, -⟩ := heach.sound hw hentries hrel.demands
      have hagain := heach.again hw hentries hrel.demands hbc hc
      rw [← constructorPlan_extends hw (hle.1.trans hbc) hd heach.untyped] at hplan
      exact .entries hplan hagain
  | .constructor hplan heach hresult, hw, he, hd, hbc, hc => by
    cases he with
    | constructor hentries _ =>
      have hrel := constructorPlan_rel hw hd hentries hplan
      obtain ⟨hle, hw₁, -, hfound⟩ := heach.sound hw hentries hrel.demands
      obtain ⟨hle₂, hw₂, -⟩ := (hrel.result hle hfound.of_ok).sound hw₁ hresult
      have hb₁ := hle₂.1.trans hbc
      have hagain := heach.again hw hentries hrel.demands hb₁ hc
      have hresult := (planned_of_ok hplan).result_again hw₂.grounded hbc hc hresult
      rw [← constructorPlan_extends hw (hle.1.trans hb₁) hd heach.untyped] at hplan
      exact .constructor hplan hagain hresult

theorem Expr.ChecksEach.again {w : Arenas} {report : Option Mismatch} {es es' : List Expr}
    {demands : List Demand} {found : Except Fault (List TypeId)} {b c : TypeArena} :
    Expr.ChecksEach w.vars report es demands w.types es' found b → w.Sound →
      Arenas.expr.list.rel w es es → Arenas.typeIds.option.list.rel w demands demands →
      b.Extends c → c.Canonical → Expr.ChecksEach w.vars report es' demands c es' found c
  | .nil, _, _, _, _, _ => .nil
  | .fault h, hw, hes, hd, hbc, hc => by
    cases hes with
    | cons he hes => exact .fault (h.again hw he (rel_headD hd) hbc hc)
  | .mismatch h hmismatch, hw, hes, hd, hbc, hc => by
    cases hes with
    | cons he hes =>
      have hdemand := rel_headD hd
      obtain ⟨hle, hw₁, -, htype⟩ := h.sound hw he hdemand
      rw [← mismatch?_extends hw₁ hbc _ (Arenas.typeIds.option.mono hle hdemand) htype.of_ok]
        at hmismatch
      exact .mismatch (h.again hw he hdemand hbc hc) hmismatch
  | .cons h hmismatch heach hfound, hw, hes, hd, hbc, hc => by
    cases hes with
    | cons he hes =>
      have hdemand := rel_headD hd
      obtain ⟨hle, hw₁, -, htype⟩ := h.sound hw he hdemand
      have hes := Arenas.expr.list.mono hle hes
      have hd := Arenas.typeIds.option.list.mono hle (rel_tail hd)
      obtain ⟨hle₂, -, -, -⟩ := heach.sound hw₁ hes hd
      have hb₁ := hle₂.1.trans hbc
      -- a type that met its demand meets it in the larger arena
      rw [← mismatch?_extends hw₁ hb₁ _ (Arenas.typeIds.option.mono hle hdemand) htype.of_ok]
        at hmismatch
      have hagain := heach.again hw₁ hes hd hbc hc
      exact .cons (h.again hw he hdemand hb₁ hc) hmismatch hagain hfound

end

/-! ## Statements and modules -/

theorem padValues_of_length {count : Nat} (span : Span) (h : values.length = count) :
    padValues count values span = values := by
  simp [padValues, h]

theorem length_padValues {count : Nat} (span : Span) (h : values.length ≤ count) :
    (padValues count values span).length = count := by
  simp only [padValues, List.length_append, List.length_replicate]
  omega

mutual

/-- So is a statement. -/
theorem Stmt.Checks.again {config : Config} {w : Arenas} {m m' : Stmt}
    {found : Except Fault Unit} {b c : TypeArena} :
    m.Checks config w.vars w.types m' found b → w.Sound → Arenas.stmt.rel w m m →
      b.Extends c → c.Canonical → m'.Checks config w.vars c m' found c
  | .plain hplain, _, _, _, _ => .plain hplain
  | .expression h hfound, hw, hm, hbc, hc => by
    cases hm with
    | expression _ he => exact .expression (h.again hw he .none hbc hc) hfound
  | .imbalanced hfault, _, _, _, _ => .imbalanced hfault
  | .locals hfault h hfound, hw, hm, hbc, hc => by
    cases hm with
    | locals _ htargets hvalues =>
      have hdemands := variableDemands_rel hw htargets
      have hagain := h.again hw (padValues_rel hw hvalues ..) hdemands hbc hc
      -- there are now as many values as variables
      have hlen := (length_eq_of_untyped h.untyped).trans
        (length_padValues _ (localsFault?_eq_none_iff.1 hfault).1)
      refine .locals (localsFault?_eq_none_iff.2 ⟨Nat.le_of_eq hlen, .inl hlen⟩) ?_ hfound
      rwa [padValues_of_length _ hlen]
  | .exportStmt h, hw, hm, hbc, hc => by
    cases hm with
    | exportStmt _ hitem => exact .exportStmt (h.again hw hitem hbc hc)
  | .exportExpr h, _, hm, _, _ => by
    cases hm with
    | exportExpr _ hitem =>
      -- only definitions of types are exported as they are
      cases hitem with
      | mk name _ =>
        cases h
        exact .exportExpr rfl
  | .block h, hw, hm, hbc, hc => by
    cases hm with
    | block hbody =>
      cases hbody with
      | mk _ hbody _ => exact .block (h.again hw hbody hbc hc)

theorem Stmt.ChecksAll.again {config : Config} {w : Arenas} {ms ms' : List Stmt}
    {found : Except Fault Unit} {b c : TypeArena} :
    Stmt.ChecksAll config w.vars ms w.types ms' found b → w.Sound →
      Arenas.stmt.list.rel w ms ms → b.Extends c → c.Canonical →
      Stmt.ChecksAll config w.vars ms' c ms' found c
  | .nil, _, _, _, _ => .nil
  | .fault h, hw, hms, hbc, hc => by
    cases hms with
    | cons hm _ => exact .fault (h.again hw hm hbc hc)
  | .cons h hall, hw, hms, hbc, hc => by
    cases hms with
    | cons hm hms =>
      obtain ⟨hle, hw₁, -⟩ := h.sound hw hm
      have hms := Arenas.stmt.list.mono hle hms
      obtain ⟨hle₂, -⟩ := hall.sound hw₁ hms
      have hagain := hall.again hw₁ hms hbc hc
      exact .cons (h.again hw hm (hle₂.1.trans hbc) hc) hagain

end

/-- **A checked module is checked to itself.** -/
theorem moduleCheck_again (config : Config) {m m' : Module} {found : Except Fault Unit}
    (hw : w.Sound) (hm : Arenas.module.rel w m m)
    (h : m.check config w.vars w.types = ((m', found), b)) :
    m'.check config w.vars b = ((m', found), b) := by
  obtain ⟨body, hall, rfl⟩ := Module.check_iff.1 h
  cases hm with
  | mk file hblock =>
    cases hblock with
    | mk span hbody _ =>
      obtain ⟨-, hw₁⟩ := hall.sound hw hbody
      have hagain := hall.again hw hbody (.refl b) hw₁.grounded.toCanonical
      exact Module.check_iff.2 ⟨body, hagain, rfl⟩

end TypedLua
