import TypedLua.Proofs.Typing.Untyped

/-!
# Typing.Checked

Everything in a tree that was checked with success is consistent.  The induction follows the check:
each part is consistent in the arena that its own check leaves, and stays so while the rest is
checked.

Main statements: `Expr.Checks.consistent` for expressions and `moduleCheck_consistent` for modules.
-/

namespace TypedLua

open Text Typing

variable {w : Arenas}

/-! ## What checking leads to -/

theorem InStep.sound {α : Type} {R : Link Arenas α α} {f : StateM TypeArena α}
    (h : InStep (fun v => v.Grounded w.vars) w R f f) (hw : w.Sound) {x : α} {b : TypeArena}
    (hf : f w.types = (x, b)) :
    w ≤ ⟨b, w.vars⟩ ∧ Arenas.Sound ⟨b, w.vars⟩ ∧ R.rel ⟨b, w.vars⟩ x x := by
  obtain ⟨v, hwv, hr, hv⟩ := h w.types w.types ⟨rfl, rfl, rfl, hw.grounded⟩
  rw [hf] at hr hv
  have hsound := hw.grow hwv hv
  obtain rfl : v = ⟨b, w.vars⟩ := by
    obtain ⟨types, vars⟩ := v
    obtain rfl : b = types := hv.types
    obtain rfl : vars = w.vars := hv.vars
    rfl
  exact ⟨hwv, hsound, hr⟩

section

variable {e e' : Expr} {es es' : List Expr} {m m' : Stmt} {ms ms' : List Stmt} {demand : Demand}
  {demands : List Demand} {report : Option Mismatch} {config : Config} {b : TypeArena}

/-- Checking an expression keeps ids meaningful. -/
theorem Expr.Checks.sound {found : Except Fault TypeId}
    (h : e.Checks w.vars demand w.types e' found b) (hw : w.Sound) (he : Arenas.expr.rel w e e)
    (hd : Arenas.typeIds.option.rel w demand demand) :
    w ≤ ⟨b, w.vars⟩ ∧ Arenas.Sound ⟨b, w.vars⟩ ∧ Arenas.expr.rel ⟨b, w.vars⟩ e' e' ∧
      (Arenas.typeIds.result Eq).rel ⟨b, w.vars⟩ found found :=
  (inStep_check (grounded_inStep w.vars) e hw.variablesMatch he hd).sound hw h.run

theorem Expr.ChecksEach.sound {found : Except Fault (List TypeId)}
    (h : Expr.ChecksEach w.vars report es demands w.types es' found b) (hw : w.Sound)
    (hes : Arenas.expr.list.rel w es es) (hd : Arenas.typeIds.option.list.rel w demands demands) :
    w ≤ ⟨b, w.vars⟩ ∧ Arenas.Sound ⟨b, w.vars⟩ ∧ Arenas.expr.list.rel ⟨b, w.vars⟩ es' es' ∧
      (Arenas.typeIds.list.result Eq).rel ⟨b, w.vars⟩ found found :=
  (inStep_checkEach (grounded_inStep w.vars) report es hw.variablesMatch hes hd).sound hw h.run

/-- So does checking a statement. -/
theorem Stmt.Checks.sound {found : Except Fault Unit}
    (h : m.Checks config w.vars w.types m' found b) (hw : w.Sound) (hm : Arenas.stmt.rel w m m) :
    w ≤ ⟨b, w.vars⟩ ∧ Arenas.Sound ⟨b, w.vars⟩ ∧ Arenas.stmt.rel ⟨b, w.vars⟩ m' m' := by
  obtain ⟨hle, hsound, hstmt, -⟩ :=
    (inStep_stmtCheck (grounded_inStep w.vars) config m hw.variablesMatch hm).sound hw h.run
  exact ⟨hle, hsound, hstmt⟩

theorem Stmt.ChecksAll.sound {found : Except Fault Unit}
    (h : Stmt.ChecksAll config w.vars ms w.types ms' found b) (hw : w.Sound)
    (hms : Arenas.stmt.list.rel w ms ms) :
    w ≤ ⟨b, w.vars⟩ ∧ Arenas.Sound ⟨b, w.vars⟩ := by
  obtain ⟨hle, hsound, -⟩ :=
    (inStep_checkAll (grounded_inStep w.vars) config ms hw.variablesMatch hms).sound hw h.run
  exact ⟨hle, hsound⟩

end

/-! ## Expressions -/

/-- What a successful check makes of an expression: one of the same label and of the type found, in
which everything is consistent. -/
structure Checked (b : TypeArena) (vars : VariableArena) (e e' : Expr) (t : TypeId) : Prop where
  label : e'.label? = e.label?
  /-- The expression is tagged with the type found. -/
  type : e'.type = t
  every : e'.Every (Expr.Consistent b vars)

/-- What a successful check makes of expressions. -/
structure CheckedEach (b : TypeArena) (vars : VariableArena) (report : Option Mismatch)
    (demands : List Demand) (es es' : List Expr) (ts : List TypeId) : Prop where
  labels : es'.map Expr.label? = es.map Expr.label?
  /-- The expressions are tagged with the types found. -/
  types : es'.map Expr.type = ts
  every : Expr.EveryOf (Expr.Consistent b vars) es'
  /-- The types meet the demands, where it is a fault if they do not. -/
  satisfied : report.isSome → Satisfied b demands ts

theorem constructorPlan_rel (hw : w.Sound) {demand : Demand} {entries : List Expr} {span : Span}
    {plan : ConstructorPlan} (hd : Arenas.typeIds.option.rel w demand demand)
    (hentries : Arenas.expr.list.rel w entries entries)
    (hplan : constructorPlan w.types w.vars demand entries span = .ok plan) :
    ConstructorPlanRel Arenas.typeIds (fun v => v.Grounded w.vars) w plan plan := by
  have h := rel_constructorPlan (grounded_inStep w.vars) (hw.grounded.alike (.refl _)).seen
    hw.variablesMatch hd hentries (rfl : span = span)
  rw [hplan] at h
  exact h.of_ok

theorem callPlan_demands (hw : w.Sound) {x : TypeId} {count : Nat} {calleeSpan span : Span}
    {plan : CallPlan} (hx : Arenas.typeIds.rel w x x)
    (hplan : callPlan w.types x count calleeSpan span = .ok plan) :
    Arenas.typeIds.option.list.rel w plan.demands plan.demands := by
  have h := rel_callPlan (F := .all) (hw.grounded.alike (.refl _)).seen hx count
    (rfl : calleeSpan = _) (rfl : span = _)
  rw [hplan] at h
  exact h.of_ok.demands

mutual

/-- An expression that is accepted is consistent, and so are its parts. -/
theorem Expr.Checks.consistent {w : Arenas} {e e' : Expr} {demand : Demand} {t : TypeId}
    {b : TypeArena} : e.Checks w.vars demand w.types e' (.ok t) b → w.Sound →
      Arenas.expr.rel w e e → Arenas.typeIds.option.rel w demand demand → Checked b w.vars e e' t
  | .plain hplain, _, he, _ => by
    cases he with
    | number _ ht | string _ ht | boolean _ ht | nil ht => exact ⟨rfl, rfl, (ht.typed .intro).1⟩
    | typeName | prototype | typeAlias => exact ⟨rfl, rfl, .intro⟩
    | _ => cases hplain
  | .reference, _, he, _ => by
    cases he with
    | reference hid _ =>
      have hget := List.getElem?_eq_getElem hid.2
      exact ⟨rfl, rfl, _, hget, congrArg (fun v => (v.map Variable.type).getD .any) hget⟩
  | .group h rfl, hw, he, hd => by
    cases he with
    | group he _ =>
      have ih := h.consistent hw he hd
      exact ⟨rfl, rfl, ih.type.symm, ih.every⟩
  | .entry h rfl, hw, he, hd => by
    cases he with
    | entry _ he _ =>
      have ih := h.consistent hw he hd
      exact ⟨rfl, rfl, ih.type.symm, ih.every⟩
  | .call h hplan heach hfound rfl, hw, he, _ => by
    cases he with
    | call he harguments _ =>
      -- the callee may add types; the arguments are checked in the arena it leaves
      obtain ⟨hle, hw₁, hcallee', htype⟩ := h.sound hw he .none
      have ih := h.consistent hw he .none
      have harguments := Arenas.expr.list.mono hle harguments
      have hdemands := callPlan_demands hw₁ htype.of_ok hplan
      obtain ⟨ts, rfl, rfl⟩ := ok_of_map hfound
      obtain ⟨hle₂, -, -, -⟩ := heach.sound hw₁ harguments hdemands
      have each := heach.consistent hw₁ harguments hdemands
      -- the call was planned for as many arguments as there are checked ones
      have hcount := congrArg List.length each.labels
      rw [List.length_map, List.length_map] at hcount
      refine ⟨rfl, rfl, ?_, ih.every.consistent_mono hw₁ hle₂ hcallee', each.every⟩
      rw [← hcount, ← List.length_map Expr.type] at hplan
      have hsatisfied := each.satisfied rfl
      rw [← each.types] at hsatisfied
      show (_ = _ ∧ _ = _) ∨ _
      rw [ih.type]
      exact callPlan_spec hw₁.grounded hle₂.1 hplan hsatisfied
  | .member h hfound rfl, hw, he, _ => by
    cases he with
    | member _ he _ =>
      obtain ⟨x, rfl, hmember⟩ := ok_of_bind hfound
      have ih := h.consistent hw he .none
      refine ⟨rfl, rfl, ?_, ih.every⟩
      show (_ = _ ∧ _ = _) ∨ _
      rw [ih.type]
      exact memberType_spec hmember
  | .index h hkey hfound rfl, hw, he, _ => by
    cases he with
    | index he hekey _ =>
      obtain ⟨y, rfl, helement⟩ := ok_of_bind hfound
      obtain ⟨hle, hw₁, hobject', -⟩ := h.sound hw he .none
      have hekey := Arenas.expr.mono hle hekey
      obtain ⟨hle₂, -, -, -⟩ := hkey.sound hw₁ hekey .none
      have ih := h.consistent hw he .none
      have ihkey := hkey.consistent hw₁ hekey .none
      refine ⟨rfl, rfl, ?_, ih.every.consistent_mono hw₁ hle₂ hobject', ihkey.every⟩
      show _ = _ ∨ _ = _ ∧ (_ = _ ∨ _)
      rw [ih.type]
      exact elementType_spec helement
  | .constructor hplan heach hresult, hw, he, hd => by
    cases he with
    | constructor hentries _ =>
      have hrel := constructorPlan_rel hw hd hentries hplan
      obtain ⟨hle, hw₁, hentries', hfound⟩ := heach.sound hw hentries hrel.demands
      have each := heach.consistent hw hentries hrel.demands
      obtain rfl := each.types
      -- the result is interned last, and what the entries are made of stays consistent
      obtain ⟨hle₂, -, -⟩ := (hrel.result hle hfound.of_ok).sound hw₁ hresult
      refine ⟨rfl, rfl, constructorPlan_spec hplan hle.1 each.labels each.satisfied hresult, ?_⟩
      rw [Expr.everyOf_iff]
      intro e he
      have hevery := Expr.everyOf_iff.1 each.every e he
      exact hevery.consistent_mono hw₁ hle₂ (List.forall₂_same.1 hentries' e he)

theorem Expr.ChecksEach.consistent {w : Arenas} {report : Option Mismatch} {es es' : List Expr}
    {demands : List Demand} {ts : List TypeId} {b : TypeArena} :
    Expr.ChecksEach w.vars report es demands w.types es' (.ok ts) b → w.Sound →
      Arenas.expr.list.rel w es es → Arenas.typeIds.option.list.rel w demands demands →
      CheckedEach b w.vars report demands es es' ts
  | .nil, _, _, _ => ⟨rfl, rfl, .intro, fun _ => .intro⟩
  | .cons h hmismatch heach hfound, hw, hes, hd => by
    cases hes with
    | cons he hes =>
      have hdemand := rel_headD hd
      obtain ⟨hle, hw₁, he', htype⟩ := h.sound hw he hdemand
      have ih := h.consistent hw he hdemand
      obtain ⟨ts, rfl, rfl⟩ := ok_of_map hfound
      have hes := Arenas.expr.list.mono hle hes
      have hd := Arenas.typeIds.option.list.mono hle (rel_tail hd)
      obtain ⟨hle₂, -, -, -⟩ := heach.sound hw₁ hes hd
      have each := heach.consistent hw₁ hes hd
      refine ⟨?_, ?_, ⟨ih.every.consistent_mono hw₁ hle₂ he', each.every⟩, ?_⟩
      · rw [List.map_cons, List.map_cons, ih.label, each.labels]
      · rw [List.map_cons, ih.type, each.types]
      · intro hreport
        refine ⟨fun wanted hwanted => ?_, each.satisfied hreport⟩
        rw [Option.mem_def.1 hwanted] at hmismatch hdemand
        -- a demand is met in the arena of its own moment, and stays met as the arena grows
        have hwanted : w.types.Holds wanted := by
          cases hdemand with
          | some h => exact h.2
        rw [hw₁.grounded.compatible_eq hle₂.1 (hle.1.holds hwanted) htype.of_ok.2]
        exact compatible_of_mismatch? hreport hmismatch

end

/-! ## Statements and modules -/

theorem variableDemands_rel (hw : w.Sound) {targets : List VariableId}
    (htargets : Arenas.variableIds.list.rel w targets targets) :
    Arenas.typeIds.option.list.rel w (targets.map fun id => demandOf (w.vars.typeOf id))
      (targets.map fun id => demandOf (w.vars.typeOf id)) := by
  refine List.rel_map (fun x y hxy => ?_) htargets
  exact rel_demandOf (hw.grounded.alike (.refl _)).seen (hw.variablesMatch.typeOf (le_refl w) hxy)

theorem padValues_rel (hw : w.Sound) {values : List Expr}
    (hvalues : Arenas.expr.list.rel w values values) (count : Nat) (span : Span) :
    Arenas.expr.list.rel w (padValues count values span) (padValues count values span) := by
  have hnil : Arenas.typeIds.rel w Primitive.nil.typeId Primitive.nil.typeId :=
    ⟨rfl, hw.grounded.holds_primitive .nil⟩
  exact rel_padValues hnil hvalues count rfl

mutual

/-- So are the expressions of a statement. -/
theorem Stmt.Checks.consistent {config : Config} {w : Arenas} {m m' : Stmt} {b : TypeArena} :
    m.Checks config w.vars w.types m' (.ok ()) b → w.Sound → Arenas.stmt.rel w m m →
      m'.Every (Expr.Consistent b w.vars)
  | .plain hplain, _, _ => by
    cases m with
    | externVariable | externFunction | imports => exact .intro
    | _ => cases hplain
  | .expression h hfound, hw, hm => by
    cases hm with
    | expression _ he =>
      obtain ⟨t, rfl, -⟩ := ok_of_map hfound
      exact (h.consistent hw he .none).every
  | .locals _ h hfound, hw, hm => by
    cases hm with
    | locals _ htargets hvalues =>
      obtain ⟨ts, rfl, -⟩ := ok_of_map hfound
      have hdemands := variableDemands_rel hw htargets
      exact (h.consistent hw (padValues_rel hw hvalues ..) hdemands).every
  | .exportStmt h, hw, hm => by
    cases hm with
    | exportStmt _ hitem =>
      have ih := h.consistent hw hitem
      exact ih
  | .exportExpr h, _, hm => by
    cases hm with
    | exportExpr _ hitem =>
      cases hitem with
      | mk name _ =>
        cases h
        exact .intro
  | .block h, hw, hm => by
    cases hm with
    | block hbody =>
      cases hbody with
      | mk _ hbody _ => exact Stmt.ChecksAll.consistent h hw hbody

theorem Stmt.ChecksAll.consistent {config : Config} {w : Arenas} {ms ms' : List Stmt}
    {b : TypeArena} : Stmt.ChecksAll config w.vars ms w.types ms' (.ok ()) b → w.Sound →
      Arenas.stmt.list.rel w ms ms → Stmt.EveryOf (Expr.Consistent b w.vars) ms'
  | .nil, _, _ => .intro
  | .cons h hall, hw, hms => by
    cases hms with
    | cons hm hms =>
      obtain ⟨hle, hw₁, hm'⟩ := h.sound hw hm
      have hms := Arenas.stmt.list.mono hle hms
      obtain ⟨hle₂, -⟩ := hall.sound hw₁ hms
      have hfirst := h.consistent hw hm
      have hothers := hall.consistent hw₁ hms
      exact ⟨hfirst.consistent_mono hw₁ hle₂ hm', hothers⟩

end

/-- **All expressions of a module that is accepted are consistent.** -/
theorem moduleCheck_consistent (config : Config) {m m' : Module} {b : TypeArena} (hw : w.Sound)
    (hm : Arenas.module.rel w m m) (h : m.check config w.vars w.types = ((m', .ok ()), b)) :
    m'.Every (Expr.Consistent b w.vars) := by
  obtain ⟨body, hall, rfl⟩ := Module.check_iff.1 h
  cases hm with
  | mk file hblock =>
    cases hblock with
    | mk span hbody _ => exact hall.consistent hw hbody

end TypedLua
