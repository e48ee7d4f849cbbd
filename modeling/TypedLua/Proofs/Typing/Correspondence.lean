import Mathlib.Order.Basic
import TypedLua.Proofs.Tree.Related
import TypedLua.Proofs.Types.Embedding
import TypedLua.Typing.Module

/-!
# Typing.Correspondence

Checking corresponding trees keeps arenas in step, if interning does and the arenas look alike.
What calls and constructors demand corresponds, and so do the types that result; faults are the
same, since types that correspond are displayed alike and take each other alike.

Main statements: `inStep_check` for expressions, and `inStep_moduleCheck`.
-/

namespace TypedLua

open Text Typing

variable {W : Type} [Preorder W] {F : Regard} {T : Link W TypeId TypeId}
  {V : Link W VariableId VariableId} {arena : W → TypeArena → TypeArena → Prop} {w : W} {a b : TypeArena}
variable {x y : TypeId} {α β : Type} {vars vars' : VariableArena} {r : α → β → Prop} {d d' : Demand}
  {xs ys : List TypeId} {es ds : List Expr}

/-- Arenas that are in step look alike, and interning keeps them in step; spans of places that go
together do so. -/
structure ArenasInStep (F : Regard) (T : Link W TypeId TypeId)
    (arena : W → TypeArena → TypeArena → Prop) : Prop where
  upTo {a b c d : Span} : F.place a b → F.place c d → F.place (a.upTo c) (b.upTo d)
  point {a b : Span} : F.place a b → F.place (.point a.stop) (.point b.stop)
  alike {w : W} {a b : TypeArena} : arena w a b → TypeArena.Seen (T.rel w) a b
  /-- Interning keeps them in step, for shapes that are no functions. -/
  intern {w : W} {s t : Shape} : T.shape.rel w s t → (∀ xs us, s ≠ .function xs us) →
    InStep arena w T (TypeArena.intern s) (TypeArena.intern t)

/-- Variables that correspond, now or later, have types that do, and one name. -/
structure VariablesMatch (T : Link W TypeId TypeId) (V : Link W VariableId VariableId) (w : W)
    (vars vars' : VariableArena) : Prop where
  typeOf {v : W} {x y : VariableId} : w ≤ v → V.rel v x y → T.rel v (vars.typeOf x) (vars'.typeOf y)
  nameOf_eq {v : W} {x y : VariableId} : w ≤ v → V.rel v x y → vars.nameOf x = vars'.nameOf y

theorem VariablesMatch.mono {v : W} (h : VariablesMatch T V w vars vars') (hwv : w ≤ v) :
    VariablesMatch T V v vars vars' :=
  ⟨fun hvu hxy => h.typeOf (le_trans hwv hvu) hxy,
    fun hvu hxy => h.nameOf_eq (le_trans hwv hvu) hxy⟩

/-! ## Demands -/

theorem rel_demandOf (h : TypeArena.Seen (T.rel w) a b) (hxy : T.rel w x y) :
    T.option.rel w (demandOf x) (demandOf y) := by
  unfold demandOf
  rw [h.isAny_eq hxy]
  split
  · exact .none
  · exact .some hxy

theorem rel_demandOf_bind (h : TypeArena.Seen (T.rel w) a b) {x y : Demand}
    (hxy : T.option.rel w x y) :
    T.option.rel w (x.bind demandOf) (y.bind demandOf) := by
  cases hxy with
  | none => exact .none
  | some hxy => exact rel_demandOf h hxy

theorem rel_headD {xs ys : List Demand} (h : T.option.list.rel w xs ys) :
    T.option.rel w (xs.headD none) (ys.headD none) := by
  cases h with
  | nil => exact .none
  | cons h _ => exact h

theorem rel_tail {xs : List α} {ys : List β} (h : List.Forall₂ r xs ys) :
    List.Forall₂ r xs.tail ys.tail := by
  cases h with
  | nil => exact .nil
  | cons _ h => exact h

theorem rel_replicate {x : α} {y : β} (h : r x y) (n : Nat) :
    List.Forall₂ r (List.replicate n x) (List.replicate n y) := by
  induction n with
  | zero => exact .nil
  | succ n ih => exact .cons h ih

/-- Related types mismatch together, with the same cause. -/
theorem rel_mismatch? (h : TypeArena.Seen (T.rel w) a b) (report : Option Mismatch)
    (hd : T.option.rel w d d') (hxy : T.rel w x y) {s t : Span} (hst : F.place s t) :
    Option.Rel (fun f g => f.cause = g.cause ∧ F.place f.span g.span)
      (mismatch? a report d x s) (mismatch? b report d' y t) := by
  cases report with
  | none => exact .none
  | some cause =>
    cases hd with
    | none => exact .none
    | some hd =>
      unfold mismatch?
      dsimp only
      rw [h.compatible_eq hd hxy, h.display_eq hd, h.display_eq hxy]
      split
      · exact .none
      · exact .some ⟨rfl, hst⟩

/-! ## Calls and indexing -/

theorem rel_getLast? {xs : List α} {ys : List β} (h : List.Forall₂ r xs ys) :
    Option.Rel r xs.getLast? ys.getLast? := by
  induction h with
  | nil => exact .none
  | cons hxy hrest ih =>
    cases hrest with
    | nil => exact .some hxy
    | cons _ _ =>
      rw [List.getLast?_cons_cons, List.getLast?_cons_cons]
      exact ih

theorem rel_dropLast {xs : List α} {ys : List β} (h : List.Forall₂ r xs ys) :
    List.Forall₂ r xs.dropLast ys.dropLast := by
  induction h with
  | nil => exact .nil
  | cons hxy hrest ih =>
    cases hrest with
    | nil => exact .nil
    | cons _ _ => exact .cons hxy ih

theorem rel_splitVariadic (h : TypeArena.Seen (T.rel w) a b) (hxys : T.list.rel w xs ys) :
    (T.list.pair T.option).rel w (splitVariadic a xs) (splitVariadic b ys) := by
  have hlast := rel_getLast? hxys
  unfold splitVariadic
  generalize xs.getLast? = x, ys.getLast? = y at hlast ⊢
  cases hlast with
  | none => exact ⟨hxys, .none⟩
  | some hxy =>
    have hshape := h.shapes hxy
    rw [Option.bind_some, Option.bind_some]
    generalize a.get? _ = s, b.get? _ = t at hshape ⊢
    cases hshape with
    | none => exact ⟨hxys, .none⟩
    | some hst =>
      cases hst with
      | vararg he => exact ⟨rel_dropLast hxys, .some he⟩
      | _ => exact ⟨hxys, .none⟩

/-- Two plans of calls demand and give types that correspond. -/
structure CallPlanRel (T : Link W TypeId TypeId) (w : W) (p q : CallPlan) : Prop where
  demands : T.option.list.rel w p.demands q.demands
  result : T.rel w p.result q.result

/-- Calls of related functions are planned alike. -/
theorem rel_callPlan (h : TypeArena.Seen (T.rel w) a b) (hxy : T.rel w x y) (count : Nat)
    {c c' s s' : Span} (hc : F.place c c') (hs : F.place s s') :
    Link.ResultRel F.place (CallPlanRel T w) (callPlan a x count c s)
      (callPlan b y count c' s') := by
  have hshape := h.shapes hxy
  -- whatever is no function can be called only if it is `any`
  have hother : Link.ResultRel F.place (CallPlanRel T w)
      (if x.isAny then .ok { demands := List.replicate count none, result := .any }
        else .error ⟨c, .notCallable (a.display x)⟩)
      (if y.isAny then .ok { demands := List.replicate count none, result := .any }
        else .error ⟨c', .notCallable (b.display y)⟩) := by
    rw [h.isAny_eq hxy, h.display_eq hxy]
    split
    · exact .ok ⟨rel_replicate .none count, h.primitive .any⟩
    · exact .error _ hc
  unfold callPlan
  generalize a.get? x = f, b.get? y = g at hshape ⊢
  cases hshape with
  | none => exact hother
  | some hshape =>
    cases hshape with
    | @function xs ys us vs hx hu =>
      have hsplit := rel_splitVariadic h hx
      dsimp only
      generalize splitVariadic a xs = p, splitVariadic b ys = q at hsplit ⊢
      obtain ⟨fixed, rest⟩ := p
      obtain ⟨fixed', rest'⟩ := q
      obtain ⟨hfixed, hrest⟩ := hsplit
      have hlen : fixed.length = fixed'.length := List.Forall₂.length_eq hfixed
      -- both sides are variadic, or none is
      have hnone : rest.isNone = rest'.isNone := by
        cases hrest <;> rfl
      have hbind : T.option.rel w (rest.bind demandOf) (rest'.bind demandOf) :=
        rel_demandOf_bind h hrest
      have hresult : T.rel w (us.head?.getD Primitive.void.typeId)
          (vs.head?.getD Primitive.void.typeId) := by
        cases hu with
        | nil => exact h.primitive .void
        | cons hu _ => exact hu
      dsimp only
      rw [hlen, hnone]
      split
      · exact .error _ hs
      · refine .ok ⟨List.rel_append ?_ (rel_replicate hbind _), hresult⟩
        exact List.rel_map (fun _ _ hxy => rel_demandOf h hxy) hfixed
    | _ => exact hother

/-- Related types have related members. -/
theorem rel_memberType (h : TypeArena.Seen (T.rel w) a b) (hxy : T.rel w x y) (name : String)
    {s t : Span} (hst : F.place s t) :
    (T.result F.place).rel w (memberType a x name s) (memberType b y name t) := by
  have hprop : Option.Rel (Property.Rel (T.rel w)) ((a.get? x).bind (·.property? name))
      ((b.get? y).bind (·.property? name)) := by
    have hshape := h.shapes hxy
    generalize a.get? x = f, b.get? y = g at hshape ⊢
    cases hshape with
    | none => exact .none
    | some hshape => exact hshape.property? name
  unfold memberType
  rw [h.isAny_eq hxy, h.display_eq hxy]
  split
  · exact .ok hxy
  · generalize (a.get? x).bind _ = p, (b.get? y).bind _ = q at hprop ⊢
    cases hprop with
    | none => exact .error _ hst
    | some hpq => exact .ok hpq.type

/-- Related arrays have related elements. -/
theorem rel_elementType (h : TypeArena.Seen (T.rel w) a b) (hxy : T.rel w x y) {s t : Span}
    (hst : F.place s t) :
    (T.result F.place).rel w (elementType a x s) (elementType b y t) := by
  have hshape := h.shapes hxy
  have hother : (T.result F.place).rel w
      (if x.isAny then .ok x else .error ⟨s, .notIndexable (a.display x)⟩)
      (if y.isAny then .ok y else .error ⟨t, .notIndexable (b.display y)⟩) := by
    rw [h.isAny_eq hxy, h.display_eq hxy]
    split
    · exact .ok hxy
    · exact .error _ hst
  unfold elementType
  generalize a.get? x = f, b.get? y = g at hshape ⊢
  cases hshape with
  | none => exact hother
  | some hshape =>
    cases hshape with
    | array he => exact .ok he
    | table _ | interface _ _ _ => exact .ok (h.primitive .any)
    | _ => exact hother

/-! ## Constructors -/

theorem entryNames_eq (hv : VariablesMatch T V w vars vars')
    (h : (Link.expr F T V).list.rel w es ds) : entryNames vars es = entryNames vars' ds := by
  unfold entryNames
  change List.Forall₂ _ es ds at h
  induction h with
  | nil => rfl
  | cons hed _ ih =>
    rw [List.filterMap_cons, List.filterMap_cons, ih]
    cases hed with
    | entry hxy _ _ =>
      dsimp only
      rw [hv.nameOf_eq (le_refl w) hxy]
    | _ => rfl

theorem rel_zip_properties (names : List String) (h : T.list.rel w xs ys) :
    T.property.list.rel w
      ((names.zip xs).map fun (name, type) => (⟨name, type, false⟩ : Property))
      ((names.zip ys).map fun (name, type) => (⟨name, type, false⟩ : Property)) := by
  change List.Forall₂ _ xs ys at h
  induction h generalizing names with
  | nil =>
    rw [List.zip_nil_right]
    exact .nil
  | cons hxy _ ih =>
    cases names with
    | nil => exact .nil
    | cons name names => exact .cons ⟨rfl, hxy, rfl⟩ (ih names)

/-- Tables of related entries get related types. -/
theorem inStep_tableResult (hA : ArenasInStep F T arena) (hd : T.option.rel w d d')
    {s t : Option Shape} (hst : T.shape.option.rel w s t) (names : List String)
    (hxys : T.list.rel w xs ys) :
    InStep arena w T (tableResult d s names xs) (tableResult d' t names ys) := by
  unfold tableResult
  refine (hA.intern (.table (rel_zip_properties names hxys)) nofun).bind fun v x y hle hxy => ?_
  cases hd with
  | none => exact .pure hxy
  | some hd =>
    cases hst with
    | none => exact .pure hxy
    | some hst =>
      cases hst with
      | interface _ _ hps =>
        refine (hA.intern (.table (T.property.list.mono hle hps)) nofun).bind
          fun v₁ x' y' hle₁ hxy' => ?_
        refine .get_bind fun a b hab => ?_
        rw [(hA.alike hab).compatible_eq hxy' (T.mono hle₁ hxy)]
        split
        · exact .pure (T.mono (le_trans hle hle₁) hd)
        · exact .pure (T.mono hle₁ hxy)
      | _ => exact .pure hxy

/-- Two plans of constructors demand types that correspond, report alike, and lead to types that
correspond. -/
structure ConstructorPlanRel (T : Link W TypeId TypeId)
    (arena : W → TypeArena → TypeArena → Prop) (w : W) (p q : ConstructorPlan) : Prop where
  demands : T.option.list.rel w p.demands q.demands
  report : p.report = q.report
  /-- Entries whose types correspond lead to types that correspond. -/
  result {v : W} {xs ys : List TypeId} : w ≤ v → T.list.rel v xs ys →
    InStep arena v T (p.result xs) (q.result ys)

theorem rel_wanted (h : TypeArena.Seen (T.rel w) a b) (hd : T.option.rel w d d') :
    T.shape.option.rel w (d.bind a.get?) (d'.bind b.get?) := by
  cases hd with
  | none => exact .none
  | some hd => exact h.shapes hd

theorem rel_tablePlan (hA : ArenasInStep F T arena) (h : TypeArena.Seen (T.rel w) a b)
    (hv : VariablesMatch T V w vars vars') (hd : T.option.rel w d d')
    (heds : (Link.expr F T V).list.rel w es ds) :
    ConstructorPlanRel T arena w (tablePlan a vars d es) (tablePlan b vars' d' ds) := by
  have hwanted := rel_wanted h hd
  unfold tablePlan
  rw [entryNames_eq hv heds]
  refine ⟨?_, rfl, fun hle hxys => inStep_tableResult hA (T.option.mono hle hd)
    (T.shape.option.mono hle hwanted) _ hxys⟩
  dsimp only
  generalize entryNames vars' ds = names
  generalize d.bind a.get? = s, d'.bind b.get? = t at hwanted ⊢
  induction names with
  | nil => exact .nil
  | cons name names ih =>
    refine .cons ?_ ih
    cases hwanted with
    | none => exact .none
    | @some s t hst =>
      have hprop := hst.property? name
      show T.option.rel w ((s.property? name).bind fun p => demandOf p.type)
        ((t.property? name).bind fun p => demandOf p.type)
      generalize s.property? name = p, t.property? name = q at hprop ⊢
      cases hprop with
      | none => exact .none
      | some hpq => exact rel_demandOf h hpq.type

theorem rel_commonType (h : TypeArena.Seen (T.rel w) a b) (hxys : T.list.rel w xs ys) :
    T.rel w (commonType xs) (commonType ys) := by
  cases hxys with
  | nil => exact h.primitive .any
  | @cons x y xs ys hxy hrest =>
    have hall : xs.all (· == x) = ys.all (· == y) := by
      induction hrest with
      | nil => rfl
      | @cons x' y' _ _ hxy' _ ih =>
        have heq : (x' == x) = (y' == y) := by
          rw [Bool.eq_iff_iff, beq_iff_eq, beq_iff_eq]
          constructor
          · rintro rfl
            exact h.biUnique.2 hxy' hxy
          · rintro rfl
            exact h.biUnique.1 hxy' hxy
        rw [List.all_cons, List.all_cons, ih, heq]
    show T.rel w (if xs.all (· == x) then x else .any) (if ys.all (· == y) then y else .any)
    rw [hall]
    split
    · exact hxy
    · exact h.primitive .any

theorem rel_arrayPlan (hA : ArenasInStep F T arena) (h : TypeArena.Seen (T.rel w) a b)
    (hd : T.option.rel w d d') (count : Nat) {s t : Span} (hst : F.place s t) :
    Link.ResultRel F.place (ConstructorPlanRel T arena w) (arrayPlan a d count s)
      (arrayPlan b d' count t) := by
  have hdemand := rel_demandOf_bind h hd
  unfold arrayPlan
  generalize d.bind demandOf = x, d'.bind demandOf = y at hdemand ⊢
  cases hdemand with
  | none =>
    refine .ok ⟨rel_replicate .none count, rfl, fun {v xs ys} _ hxys => ?_⟩
    -- the common type is taken in the world that the entries lead to
    intro a' b' hab'
    exact hA.intern (.array (rel_commonType (hA.alike hab') hxys)) nofun a' b' hab'
  | some hxy =>
    have hshape := h.shapes hxy
    dsimp only
    rw [h.display_eq hxy]
    generalize a.get? _ = f, b.get? _ = g at hshape ⊢
    cases hshape with
    | none => exact .error _ hst
    | some hshape =>
      cases hshape with
      | array he =>
        exact .ok ⟨rel_replicate (rel_demandOf h he) count, rfl,
          fun hle _ => .pure (T.mono hle hxy)⟩
      | _ => exact .error _ hst

theorem rel_emptyPlan (hA : ArenasInStep F T arena) (h : TypeArena.Seen (T.rel w) a b)
    (hv : VariablesMatch T V w vars vars') (hd : T.option.rel w d d') :
    ConstructorPlanRel T arena w (emptyPlan a vars d) (emptyPlan b vars' d') := by
  have htable := rel_tablePlan hA h hv hd (List.Forall₂.nil : (Link.expr F T V).list.rel w [] [])
  have hunknown : ConstructorPlanRel T arena w
      { result := fun _ => return Primitive.unknown.typeId }
      { result := fun _ => return Primitive.unknown.typeId } :=
    ⟨.nil, rfl, fun hle _ => .pure (T.mono hle (h.primitive .unknown))⟩
  unfold emptyPlan
  cases hd with
  | none => exact hunknown
  | some hxy =>
    have hshape := h.shapes hxy
    rw [Option.bind_some, Option.bind_some]
    generalize a.get? _ = f, b.get? _ = g at hshape ⊢
    cases hshape with
    | none => exact hunknown
    | some hshape =>
      cases hshape with
      | array _ => exact ⟨.nil, rfl, fun hle _ => .pure (T.mono hle hxy)⟩
      | table _ => exact htable
      | interface _ _ _ => exact htable
      | _ => exact hunknown

/-- Related constructors are planned alike. -/
theorem rel_constructorPlan (hA : ArenasInStep F T arena) (h : TypeArena.Seen (T.rel w) a b)
    (hv : VariablesMatch T V w vars vars') (hd : T.option.rel w d d')
    (heds : (Link.expr F T V).list.rel w es ds) {s t : Span} (hst : F.place s t) :
    Link.ResultRel F.place (ConstructorPlanRel T arena w) (constructorPlan a vars d es s)
      (constructorPlan b vars' d' ds t) := by
  have hlen : es.length = ds.length := List.Forall₂.length_eq heds
  have hempty : es.isEmpty = ds.isEmpty := by
    cases heds <;> rfl
  have hentries : es.map Expr.isEntry = ds.map Expr.isEntry :=
    map_eq_map_of_forall₂ heds fun _ _ hed => hed.isEntry_eq
  have hall : es.all Expr.isEntry = ds.all Expr.isEntry := by
    simpa only [List.all_map, Function.id_comp] using congrArg (List.all · id) hentries
  have hany : es.any Expr.isEntry = ds.any Expr.isEntry := by
    simpa only [List.any_map, Function.id_comp] using congrArg (List.any · id) hentries
  unfold constructorPlan
  rw [hempty, hall, hany, hlen]
  split
  · exact .ok (rel_emptyPlan hA h hv hd)
  · split
    · exact .ok (rel_tablePlan hA h hv hd heds)
    · split
      · exact .error _ hst
      · exact rel_arrayPlan hA h hd ds.length hst

/-! ## Expressions -/

theorem rel_settle {r : Tag → Expr} {q : Tag → Expr}
    (h : ∀ t u, (Link.tag F T).rel w t u → (Link.expr F T V).rel w (r t) (q u))
    {t u : Tag} (htu : (Link.tag F T).rel w t u) {x y : Except Fault TypeId}
    (hxy : (T.result F.place).rel w x y) :
    ((Link.expr F T V).pair (T.result F.place)).rel w (Expr.settle r t x)
      (Expr.settle q u y) := by
  cases hxy with
  | ok hxy => exact ⟨h _ _ ⟨htu.span, hxy⟩, .ok hxy⟩
  | error cause hab => exact ⟨h _ _ htu, .error cause hab⟩

mutual

/-- Related expressions are checked in step, by induction on the first. -/
theorem inStep_check (hA : ArenasInStep F T arena) {vars vars' : VariableArena} : ∀ (e : Expr)
    {d : Expr} {w : W},
    VariablesMatch T V w vars vars' → (Link.expr F T V).rel w e d →
    ∀ {x y : Demand}, T.option.rel w x y →
      InStep arena w ((Link.expr F T V).pair (T.result F.place)) (e.check vars x)
        (d.check vars' y)
  | .unresolved name t, _, w, _, h, _, _, _ => by
    cases h with
    | unresolved _ ht =>
      rw [Expr.check, Expr.check]
      exact .pure ⟨.unresolved name ht, .error _ ht.span⟩
  | .reference id t, _, w, hv, h, _, _, _ => by
    cases h with
    | reference hid ht =>
      rw [Expr.check, Expr.check]
      have htype := hv.typeOf (le_refl w) hid
      exact .pure (rel_settle (fun _ _ htu => .reference hid htu) ht (.ok htype))
  | .group inner t, _, w, hv, h, _, _, hdemand => by
    cases h with
    | group hinner ht =>
      rw [Expr.check, Expr.check]
      refine (inStep_check hA inner hv hinner hdemand).bind ?_
      rintro v ⟨e, found⟩ ⟨d, found'⟩ hle ⟨hed, hfound⟩
      exact .pure (rel_settle (fun _ _ htu => .group hed htu) (Link.mono _ hle ht) hfound)
  | .entry id value t, _, w, hv, h, _, _, hdemand => by
    cases h with
    | entry hid hvalue ht =>
      rw [Expr.check, Expr.check]
      refine (inStep_check hA value hv hvalue hdemand).bind ?_
      rintro v ⟨e, found⟩ ⟨d, found'⟩ hle ⟨hed, hfound⟩
      have hid := V.mono hle hid
      exact .pure (rel_settle (fun _ _ htu => .entry hid hed htu) (Link.mono _ hle ht) hfound)
  | .call callee arguments t, _, w, hv, h, _, _, _ => by
    cases h with
    | @call _ callee' _ arguments' _ t' hcallee harguments ht =>
      rw [Expr.check, Expr.check]
      refine (inStep_check hA callee hv hcallee .none).bind ?_
      rintro v ⟨e, found⟩ ⟨d, found'⟩ hle ⟨hed, hfound⟩
      refine .get_bind fun a b hab => ?_
      have harguments := (Link.expr F T V).list.mono hle harguments
      have ht := (Link.tag F T).mono hle ht
      have hlen : arguments.length = arguments'.length := List.Forall₂.length_eq harguments
      have hplan : Link.ResultRel F.place (CallPlanRel T v)
          (found.bind (callPlan a · arguments.length e.span t.span))
          (found'.bind (callPlan b · arguments'.length d.span t'.span)) := by
        refine hfound.bind fun x y hxy => ?_
        rw [hlen]
        exact rel_callPlan (hA.alike hab) hxy _ (Expr.Agree.span hed) ht.span
      dsimp only
      generalize found.bind _ = p at hplan ⊢
      generalize found'.bind _ = q at hplan ⊢
      cases hplan with
      | error cause hab => exact .pure ⟨.call hed harguments ht, .error cause hab⟩
      | ok hplan =>
        refine (inStep_checkEach hA (some assignability) arguments (hv.mono hle) harguments
          hplan.demands).bind ?_
        rintro v₁ ⟨es, found⟩ ⟨ds, found'⟩ hle₁ ⟨heds, hfound⟩
        refine .pure (rel_settle (fun _ _ htu => .call ((Link.expr _ _ _).mono hle₁ hed) heds htu)
          (Link.mono _ hle₁ ht) ?_)
        exact hfound.map fun _ _ _ => T.mono hle₁ hplan.result
  | .member object name t, _, w, hv, h, _, _, _ => by
    cases h with
    | @member _ _ _ _ t' hobject ht =>
      rw [Expr.check, Expr.check]
      refine (inStep_check hA object hv hobject .none).bind ?_
      rintro v ⟨e, found⟩ ⟨d, found'⟩ hle ⟨hed, hfound⟩
      refine .get_bind fun a b hab => ?_
      refine .pure (rel_settle (fun _ _ htu => .member name hed htu) (Link.mono _ hle ht) ?_)
      exact hfound.bind fun x y hxy => rel_memberType (hA.alike hab) hxy name ht.span
  | .index object key t, _, w, hv, h, _, _, _ => by
    cases h with
    | @index _ _ _ _ _ t' hobject hkey ht =>
      rw [Expr.check, Expr.check]
      refine (inStep_check hA object hv hobject .none).bind ?_
      rintro v ⟨e, found⟩ ⟨d, found'⟩ hle ⟨hed, hfound⟩
      have hkey := (Link.expr F T V).mono hle hkey
      have ht := (Link.tag F T).mono hle ht
      cases hfound with
      | error cause hab => exact .pure ⟨.index hed hkey ht, .error cause hab⟩
      | ok hxy =>
        refine (inStep_check hA key (hv.mono hle) hkey .none).bind ?_
        rintro v₁ ⟨k, found⟩ ⟨l, found'⟩ hle₁ ⟨hkl, hfound⟩
        refine .get_bind fun a b hab => ?_
        refine .pure (rel_settle (fun _ _ htu => .index ((Link.expr _ _ _).mono hle₁ hed) hkl htu)
          (Link.mono _ hle₁ ht) ?_)
        exact hfound.bind fun _ _ _ => rel_elementType (hA.alike hab) (T.mono hle₁ hxy) ht.span
  | .constructor entries t, _, w, hv, h, _, _, hdemand => by
    cases h with
    | @constructor _ _ _ t' hentries ht =>
      rw [Expr.check, Expr.check]
      refine .get_bind fun a b hab => ?_
      have hplan := rel_constructorPlan hA (hA.alike hab) hv hdemand hentries ht.span
      generalize constructorPlan a vars _ _ _ = p at hplan ⊢
      generalize constructorPlan b vars' _ _ _ = q at hplan ⊢
      cases hplan with
      | error cause hab => exact .pure ⟨.constructor hentries ht, .error cause hab⟩
      | @ok p q hplan =>
        dsimp only
        rw [show p.report = q.report from hplan.report]
        refine (inStep_checkEach hA q.report entries hv hentries hplan.demands).bind ?_
        rintro v ⟨es, found⟩ ⟨ds, found'⟩ hle ⟨heds, hfound⟩
        cases hfound with
        | error cause hab =>
          exact .pure ⟨.constructor heds ((Link.tag F T).mono hle ht), .error cause hab⟩
        | ok hxys =>
          refine (hplan.result hle hxys).bind fun v₁ x y hle₁ hxy => ?_
          exact .pure (rel_settle
            (fun _ _ htu => .constructor ((Link.expr _ _ _).list.mono hle₁ heds) htu)
            (Link.mono _ (le_trans hle hle₁) ht) (.ok hxy))
  | .number v t, _, w, _, h, _, _, _ => by
    cases h with
    | number _ ht => exact .pure ⟨.number v ht, .ok ht.type⟩
  | .string v t, _, w, _, h, _, _, _ => by
    cases h with
    | string _ ht => exact .pure ⟨.string v ht, .ok ht.type⟩
  | .boolean v t, _, w, _, h, _, _, _ => by
    cases h with
    | boolean _ ht => exact .pure ⟨.boolean v ht, .ok ht.type⟩
  | .nil t, _, w, _, h, _, _, _ => by
    cases h with
    | nil ht => exact .pure ⟨.nil ht, .ok ht.type⟩
  | .typeName n t, _, w, _, h, _, _, _ => by
    cases h with
    | typeName _ ht => exact .pure ⟨.typeName n ht, .ok ht.type⟩
  | .prototype p, _, w, _, h, _, _, _ => by
    cases h with
    | prototype hp => exact .pure ⟨.prototype hp, .ok hp.tag.type⟩
  | .typeAlias n t, _, w, _, h, _, _, _ => by
    cases h with
    | typeAlias _ ht => exact .pure ⟨.typeAlias n ht, .ok ht.type⟩

theorem inStep_checkEach (hA : ArenasInStep F T arena) {vars vars' : VariableArena}
    (report : Option Mismatch) :
    ∀ (es : List Expr) {ds : List Expr} {w : W}, VariablesMatch T V w vars vars' →
    (Link.expr F T V).list.rel w es ds →
    ∀ {xs ys : List Demand}, T.option.list.rel w xs ys →
      InStep arena w ((Link.expr F T V).list.pair (T.list.result F.place))
        (Expr.checkEach vars report es xs) (Expr.checkEach vars' report ds ys)
  | [], _, w, _, h, _, _, _ => by
    cases h with
    | nil => exact .pure ⟨.nil, .ok .nil⟩
  | e :: es, _, w, hv, h, _, _, hdemands => by
    cases h with
    | cons hed heds =>
      rw [Expr.checkEach, Expr.checkEach]
      have hdemand := rel_headD hdemands
      refine (inStep_check hA e hv hed hdemand).bind ?_
      rintro v ⟨e, found⟩ ⟨d, found'⟩ hle ⟨hed, hfound⟩
      have heds := (Link.expr F T V).list.mono hle heds
      cases hfound with
      | error cause hab => exact .pure ⟨.cons hed heds, .error cause hab⟩
      | ok hxy =>
        refine .get_bind fun a b hab => ?_
        have hmismatch := rel_mismatch? (hA.alike hab) report (T.option.mono hle hdemand) hxy
          (Expr.Agree.span hed)
        generalize mismatch? a report _ _ _ = f, mismatch? b report _ _ _ = g at hmismatch ⊢
        cases hmismatch with
        | some hfg => exact .pure ⟨.cons hed heds, .error_of hfg.1 hfg.2⟩
        | none =>
          refine (inStep_checkEach hA report es (hv.mono hle) heds
            (T.option.list.mono hle (rel_tail hdemands))).bind ?_
          rintro v₁ ⟨es, found⟩ ⟨ds, found'⟩ hle₁ ⟨heds, hfound⟩
          refine .pure ⟨.cons ((Link.expr _ _ _).mono hle₁ hed) heds, ?_⟩
          exact hfound.map fun _ _ hxys => .cons (T.mono hle₁ hxy) hxys

end

/-! ## Statements and modules -/

theorem rel_valuesSpan (hA : ArenasInStep F T arena) (h : (Link.expr F T V).list.rel w es ds)
    {s t : Span} (hst : F.place s t) : F.place (valuesSpan es s) (valuesSpan ds t) := by
  have hlast := rel_getLast? h
  have hhead : (Link.expr F T V).option.rel w es.head? ds.head? := by
    cases h with
    | nil => exact .none
    | cons hed _ => exact .some hed
  unfold valuesSpan
  generalize es.getLast? = x, ds.getLast? = y at hlast ⊢
  generalize es.head? = x', ds.head? = y' at hhead ⊢
  cases hhead with
  | none => exact hst
  | some hfirst =>
    cases hlast with
    | none => exact hst
    | some hlast => exact hA.upTo hfirst.span hlast.span

theorem rel_padValues (h : T.rel w Primitive.nil.typeId Primitive.nil.typeId)
    (heds : (Link.expr F T V).list.rel w es ds) (count : Nat) {s t : Span}
    (hst : F.place (.point s.stop) (.point t.stop)) :
    (Link.expr F T V).list.rel w (padValues count es s) (padValues count ds t) := by
  unfold padValues
  rw [List.Forall₂.length_eq heds]
  exact List.rel_append heds (rel_replicate (.nil (.of_primitive hst h)) _)

/-- So are declarations. -/
theorem inStep_checkLocals (hA : ArenasInStep F T arena) (config : Config)
    (hv : VariablesMatch T V w vars vars') {xs ys : List VariableId} (hxys : V.list.rel w xs ys)
    (heds : (Link.expr F T V).list.rel w es ds) {s t : Span} (hst : F.place s t) :
    InStep arena w ((Link.expr F T V).list.pair (Link.same.result F.place))
      (checkLocals config vars xs es s) (checkLocals config vars' ys ds t) := by
  have hvalues := rel_valuesSpan hA heds hst
  unfold checkLocals
  rw [List.Forall₂.length_eq hxys, List.Forall₂.length_eq heds]
  split
  · exact .pure ⟨heds, .error _ hvalues⟩
  · split
    · exact .pure ⟨heds, .error _ hvalues⟩
    · intro a b hab
      have hpadded := rel_padValues ((hA.alike hab).primitive .nil) heds ys.length (hA.point hst)
      have hdemands : T.option.list.rel w (xs.map fun id => demandOf (vars.typeOf id))
          (ys.map fun id => demandOf (vars'.typeOf id)) :=
        List.rel_map (fun _ _ hxy => rel_demandOf (hA.alike hab) (hv.typeOf (le_refl w) hxy)) hxys
      refine ((inStep_checkEach hA (some .valueMismatch) _ hv hpadded hdemands).bind ?_) a b hab
      rintro v ⟨es, found⟩ ⟨ds, found'⟩ _ ⟨heds, hfound⟩
      exact .pure ⟨heds, hfound.map fun _ _ _ => rfl⟩

mutual

/-- So are statements. -/
theorem inStep_stmtCheck (hA : ArenasInStep F T arena) (config : Config)
    {vars vars' : VariableArena} : ∀ (m : Stmt) {n : Stmt}
    {w : W}, VariablesMatch T V w vars vars' →
    (Link.stmt F T V).rel w m n →
      InStep arena w ((Link.stmt F T V).pair (Link.same.result F.place))
        (m.check config vars) (n.check config vars')
  | .expression e s, _, w, hv, h => by
    cases h with
    | expression hs hed =>
      rw [Stmt.check, Stmt.check]
      refine (inStep_check hA e hv hed .none).bind ?_
      rintro v ⟨e, found⟩ ⟨d, found'⟩ _ ⟨hed, hfound⟩
      exact .pure ⟨.expression hs hed, hfound.map fun _ _ _ => rfl⟩
  | .locals xs es s, _, w, hv, h => by
    cases h with
    | locals hs hxys heds =>
      rw [Stmt.check, Stmt.check]
      refine (inStep_checkLocals hA config hv hxys heds hs).bind ?_
      rintro v ⟨es, found⟩ ⟨ds, found'⟩ hle ⟨heds, hfound⟩
      exact .pure ⟨.locals hs (V.list.mono hle hxys) heds, hfound⟩
  | .exportStmt item s, _, w, hv, h => by
    cases h with
    | exportStmt hs hitem =>
      rw [Stmt.check, Stmt.check]
      refine (inStep_stmtCheck hA config item hv hitem).bind ?_
      rintro v ⟨m, found⟩ ⟨n, found'⟩ _ ⟨hmn, hfound⟩
      exact .pure ⟨.exportStmt hs hmn, hfound⟩
  | .exportExpr item s, _, w, hv, h => by
    cases h with
    | exportExpr hs hitem =>
      -- a definition of a type holds no constructor
      cases hitem with
      | mk name ht => exact .pure ⟨.exportExpr hs (.mk name ht), .ok rfl⟩
  | .externVariable id s, _, w, _, h => by
    cases h with
    | externVariable hs hid => exact .pure ⟨.externVariable hs hid, .ok rfl⟩
  | .externFunction head s, _, w, _, h => by
    cases h with
    | externFunction hs hhead => exact .pure ⟨.externFunction hs hhead, .ok rfl⟩
  | .imports names source s, _, w, _, h => by
    cases h with
    | imports hs hnames hsource => exact .pure ⟨.imports hs hnames hsource, .ok rfl⟩
  | .block b, _, w, hv, h => by
    cases h with
    | block hb =>
      rw [Stmt.check, Stmt.check]
      refine (inStep_blockCheck hA config b hv hb).bind ?_
      rintro v ⟨b, found⟩ ⟨c, found'⟩ _ ⟨hbc, hfound⟩
      exact .pure ⟨.block hbc, hfound⟩

theorem inStep_blockCheck (hA : ArenasInStep F T arena) (config : Config)
    {vars vars' : VariableArena} : ∀ (b : Block)
    {c : Block} {w : W}, VariablesMatch T V w vars vars' →
    (Link.block F T V).rel w b c →
      InStep arena w ((Link.block F T V).pair (Link.same.result F.place))
        (b.check config vars) (c.check config vars')
  | ⟨body, scope, span⟩, _, w, hv, h => by
    cases h with
    | mk hs hbody hscope =>
      rw [Block.check, Block.check]
      refine (inStep_checkAll hA config body hv hbody).bind ?_
      rintro v ⟨ms, found⟩ ⟨ns, found'⟩ hle ⟨hms, hfound⟩
      exact .pure ⟨.mk hs hms ((Link.scope T V).mono hle hscope), hfound⟩

theorem inStep_checkAll (hA : ArenasInStep F T arena) (config : Config)
    {vars vars' : VariableArena} : ∀ (ms : List Stmt)
    {ns : List Stmt} {w : W}, VariablesMatch T V w vars vars' →
    (Link.stmt F T V).list.rel w ms ns →
      InStep arena w ((Link.stmt F T V).list.pair (Link.same.result F.place))
        (Stmt.checkAll config vars ms) (Stmt.checkAll config vars' ns)
  | [], _, w, _, h => by
    cases h with
    | nil => exact .pure ⟨.nil, .ok rfl⟩
  | m :: ms, _, w, hv, h => by
    cases h with
    | cons hm hms =>
      rw [Stmt.checkAll, Stmt.checkAll]
      refine (inStep_stmtCheck hA config m hv hm).bind ?_
      rintro v ⟨m, found⟩ ⟨n, found'⟩ hle ⟨hmn, hfound⟩
      have hms := (Link.stmt F T V).list.mono hle hms
      cases hfound with
      | error cause hab => exact .pure ⟨.cons hmn hms, .error cause hab⟩
      | ok _ =>
        refine (inStep_checkAll hA config ms (hv.mono hle) hms).bind ?_
        rintro v₁ ⟨ms, found⟩ ⟨ns, found'⟩ hle₁ ⟨hms, hfound⟩
        exact .pure ⟨.cons ((Link.stmt _ _ _).mono hle₁ hmn) hms, hfound⟩

end

/-- **So are modules.** -/
theorem inStep_moduleCheck (hA : ArenasInStep F T arena) (config : Config) {m n : Module}
    (hv : VariablesMatch T V w vars vars') (h : (Link.module F T V).rel w m n) :
    InStep arena w ((Link.module F T V).pair (Link.same.result F.place))
      (m.check config vars) (n.check config vars') := by
  cases h with
  | mk file hblock =>
    refine (inStep_blockCheck hA config _ hv hblock).bind ?_
    rintro v ⟨b, found⟩ ⟨c, found'⟩ _ ⟨hbc, hfound⟩
    exact .pure ⟨.mk file hbc, hfound⟩

/-! ## One arena -/

theorem Regard.all_upTo {a b c d : Span} (hab : Regard.all.place a b) (hcd : Regard.all.place c d) :
    Regard.all.place (a.upTo c) (b.upTo d) := congrArg₂ Span.upTo hab hcd

theorem Regard.all_point {a b : Span} (hab : Regard.all.place a b) :
    Regard.all.place (.point a.stop) (.point b.stop) := congrArg (fun s : Span => Span.point s.stop) hab

theorem equal_inStep
    (hupTo : ∀ {a b c d : Span}, F.place a b → F.place c d → F.place (a.upTo c) (b.upTo d))
    (hpoint : ∀ {a b : Span}, F.place a b → F.place (.point a.stop) (.point b.stop)) :
    ArenasInStep (W := W) F .same fun _ a b => a = b where
  upTo := hupTo
  point := hpoint
  alike h := h ▸ .refl _
  intern {w s t} hst _ := by
    obtain rfl := Shape.Rel.eq hst fun _ _ h => h
    rintro a _ rfl
    exact ⟨w, le_refl w, rfl, rfl⟩

/-- Checking keeps a module regular. -/
theorem Module.Regular.check {m : Module} (h : m.Regular) (config : Config) (vars : VariableArena)
    (a : TypeArena) : (m.check config vars a).1.1.Regular := by
  let arenas : ArenasInStep (W := Unit) .all .same fun _ a b => a = b :=
    equal_inStep Regard.all_upTo Regard.all_point
  have hvars : VariablesMatch (W := Unit) .same .same () vars vars :=
    ⟨fun _ hxy => congrArg vars.typeOf hxy, fun _ hxy => congrArg vars.nameOf hxy⟩
  obtain ⟨_, -, ⟨hm, -⟩, -⟩ := inStep_moduleCheck arenas config hvars h a a rfl
  exact hm

end TypedLua
