import TypedLua.Proofs.Typing.Consistency
import TypedLua.Proofs.Typing.Rules

/-!
# Typing.Plans

What follows once demands are met.  The arguments of a call that meet what the call demands are
accepted by the function, and the type of a constructor whose entries meet what it demands fits
them.

Main statements: `callPlan_spec` and `constructorPlan_spec`.
-/

namespace TypedLua

open Text Typing

/-! ## Demands that are met -/

/-- The types meet their demands; a type beyond the last demand meets none. -/
def Satisfied (a : TypeArena) : List Demand → List TypeId → Prop
  | _, [] => True
  | demands, x :: xs =>
    (∀ wanted ∈ demands.headD none, a.compatible wanted x = true) ∧ Satisfied a demands.tail xs

variable {x t : TypeId} {span : Span} {demand : Demand} {types : List TypeId}

section

variable {a b : TypeArena}

theorem eq_any_of_isAny (h : x.isAny = true) : x = .any := beq_iff_eq.1 h

theorem meets_of_demandOf {p : TypeId} (h : ∀ wanted ∈ demandOf p, a.compatible wanted x = true) :
    a.Meets p x := by
  intro hp
  refine h p ?_
  unfold demandOf
  rw [if_neg fun hany => hp (eq_any_of_isAny hany)]
  rfl

theorem satisfied_replicate {d : Demand} : ∀ {n : Nat} {xs : List TypeId},
    Satisfied a (List.replicate n d) xs → xs.length ≤ n →
      ∀ x ∈ xs, ∀ wanted ∈ d, a.compatible wanted x = true
  | 0, x :: xs, _, hlen => absurd hlen (Nat.not_succ_le_zero _)
  | n + 1, x :: xs, h, hlen => by
    intro y hy
    rcases List.mem_cons.1 hy with rfl | hy
    · exact h.1
    · exact satisfied_replicate (n := n) h.2 (Nat.le_of_succ_le_succ hlen) y hy
  | _, [], _, _ => fun _ hx => absurd hx List.not_mem_nil

/-- Arguments that satisfy parameters and a rest are parted there. -/
theorem satisfied_append {rest : List Demand} : ∀ {ps xs : List TypeId},
    Satisfied a (ps.map demandOf ++ rest) xs → ps.length ≤ xs.length →
      ∃ ys zs, xs = ys ++ zs ∧ List.Forall₂ a.Meets ps ys ∧ Satisfied a rest zs
  | [], xs, h, _ => ⟨[], xs, rfl, .nil, h⟩
  | p :: ps, [], _, hlen => absurd hlen (Nat.not_succ_le_zero _)
  | p :: ps, x :: xs, h, hlen => by
    obtain ⟨ys, zs, rfl, hmeets, hrest⟩ := satisfied_append h.2 (Nat.le_of_succ_le_succ hlen)
    exact ⟨x :: ys, zs, rfl, .cons (meets_of_demandOf h.1) hmeets, hrest⟩

/-- A list of parameters ends in a variadic one, or has none. -/
theorem splitVariadic_cases (a : TypeArena) (ps : List TypeId) :
    (splitVariadic a ps = (ps, none) ∧
        ∀ v ∈ ps.getLast?, ∀ element, a.get? v ≠ some (.vararg element)) ∨
      ∃ fixed v element, ps = fixed ++ [v] ∧ a.get? v = some (.vararg element) ∧
        splitVariadic a ps = (fixed, some element) := by
  unfold splitVariadic
  cases hlast : ps.getLast? with
  | none => exact .inl ⟨rfl, fun v hv => nomatch hv⟩
  | some v =>
    rw [Option.bind_some]
    have hps : ps = ps.dropLast ++ [v] := (List.dropLast_append_getLast? v hlast).symm
    cases hv : a.get? v with
    | none =>
      refine .inl ⟨rfl, fun u hu element => ?_⟩
      obtain rfl : v = u := Option.some.inj hu
      rw [hv]
      exact fun h => nomatch h
    | some shape =>
      cases shape with
      | vararg element => exact .inr ⟨ps.dropLast, v, element, hps, hv, rfl⟩
      | _ =>
        refine .inl ⟨rfl, fun u hu element => ?_⟩
        obtain rfl : v = u := Option.some.inj hu
        rw [hv]
        exact fun h => nomatch h

/-- Arguments that satisfy the plan of a call are accepted by the function. -/
theorem callPlan_spec (ha : a.Grounded) (hab : a.Extends b) {xs : List TypeId} {calleeSpan : Span}
    {plan : CallPlan} (hplan : callPlan a x xs.length calleeSpan span = .ok plan)
    (h : Satisfied b plan.demands xs) :
    (x = .any ∧ plan.result = .any) ∨ ∃ ps rs, b.get? x = some (.function ps rs) ∧
      b.Accepts ps xs ∧ plan.result = rs.head?.getD Primitive.void.typeId := by
  unfold callPlan at hplan
  split at hplan
  · next ps rs hx =>
    right
    refine ⟨ps, rs, hab.get? hx, ?_⟩
    rcases splitVariadic_cases a ps with ⟨hsplit, hlast⟩ | ⟨fixed, v, element, rfl, hv, hsplit⟩
    · rw [hsplit] at hplan
      dsimp only at hplan
      split at hplan
      · cases hplan
      · next hcount =>
        cases hplan
        -- without a variadic parameter there are as many arguments as parameters
        have hlen : ps.length = xs.length := by simp at hcount; omega
        obtain ⟨ys, zs, rfl, hmeets, -⟩ := satisfied_append h (Nat.le_of_eq hlen)
        obtain rfl : zs = [] := by
          have hys := hmeets.length_eq
          rw [List.length_append] at hlen
          exact List.eq_nil_of_length_eq_zero (by omega)
        rw [List.append_nil]
        refine ⟨.fixed (fun v hv element => ?_) hmeets, rfl⟩
        rw [hab.get?_eq (ha.holds_part hx (List.mem_append_left _ (List.mem_of_getLast? hv)))]
        exact hlast v hv element
    · rw [hsplit] at hplan
      dsimp only at hplan
      split at hplan
      · cases hplan
      · next hcount =>
        cases hplan
        have hle : fixed.length ≤ xs.length := by simp at hcount; omega
        obtain ⟨ys, zs, rfl, hmeets, hrest⟩ := satisfied_append h hle
        refine ⟨.variadic (hab.get? hv) hmeets fun z hz => ?_, rfl⟩
        refine meets_of_demandOf (satisfied_replicate hrest ?_ z hz)
        rw [List.length_append, hmeets.length_eq]
        omega
  · split at hplan
    · next hany =>
      cases hplan
      exact .inl ⟨eq_any_of_isAny hany, rfl⟩
    · cases hplan

theorem compatible_of_mismatch? {report : Option Mismatch} {wanted : TypeId}
    (hreport : report.isSome) (h : mismatch? a report (some wanted) x span = none) :
    a.compatible wanted x = true := by
  cases report with
  | none => cases hreport
  | some cause =>
    unfold mismatch? at h
    dsimp only at h
    split at h
    · assumption
    · cases h

/-- A member has the type of the property, or anything goes. -/
theorem memberType_spec {name : String} (h : memberType a x name span = .ok t) :
    (x = .any ∧ t = .any) ∨ ∃ shape property, a.get? x = some shape ∧
      shape.property? name = some property ∧ t = property.type := by
  unfold memberType at h
  split at h
  · next hany =>
    cases h
    exact .inl ⟨eq_any_of_isAny hany, eq_any_of_isAny hany⟩
  · split at h
    · next property hproperty =>
      cases h
      obtain ⟨shape, hshape, hproperty⟩ := Option.bind_eq_some_iff.1 hproperty
      exact .inr ⟨shape, property, hshape, hproperty, rfl⟩
    · cases h

/-- An element has the type of the array's elements, or anything goes. -/
theorem elementType_spec (h : elementType a x span = .ok t) :
    a.get? x = some (.array t) ∨ t = .any ∧ (x = .any ∨ (∃ ps, a.get? x = some (.table ps)) ∨
      ∃ name gs ps, a.get? x = some (.interface name gs ps)) := by
  unfold elementType at h
  split at h
  · next element hx =>
    cases h
    exact .inl hx
  · next ps hx =>
    cases h
    exact .inr ⟨rfl, .inr (.inl ⟨ps, hx⟩)⟩
  · next name gs ps hx =>
    cases h
    exact .inr ⟨rfl, .inr (.inr ⟨name, gs, ps, hx⟩)⟩
  · split at h
    · next hany =>
      cases h
      exact .inr ⟨eq_any_of_isAny hany, .inl (eq_any_of_isAny hany)⟩
    · cases h

end

/-! ## Constructors -/

/-- The variable that a named entry stands for. -/
def Expr.label? : Expr → Option VariableId
  | .entry id _ _ => some id
  | _ => none

theorem isEntry_eq_label? (e : Expr) : e.isEntry = e.label?.isSome := by cases e <;> rfl

theorem zip_entryNames {vars : VariableArena} : ∀ {es : List Expr}, es.all Expr.isEntry = true →
    ((entryNames vars es).zip (es.map Expr.type)).map
      (fun (name, type) => (⟨name, type, false⟩ : Property)) = entryProperties vars es
  | [], _ => rfl
  | e :: es, h => by
    rw [List.all_cons, Bool.and_eq_true] at h
    cases e with
    | entry id value tag => exact congrArg (_ :: ·) (zip_entryNames h.2)
    | _ => cases h.1

theorem entryNames_eq_of_labels {vars : VariableArena} : ∀ {es ds : List Expr},
    es.map Expr.label? = ds.map Expr.label? → entryNames vars es = entryNames vars ds := by
  have hnames : ∀ es : List Expr, entryNames vars es =
      (es.map Expr.label?).filterMap (Option.map vars.nameOf) := by
    intro es
    rw [List.filterMap_map]
    refine List.filterMap_congr fun e _ => ?_
    cases e <;> rfl
  intro es ds h
  rw [hnames, hnames, h]

section

variable {a b c : TypeArena} {vars : VariableArena}

/-- The type that is given to a table fits it. -/
theorem tableResult_spec {wanted : Option Shape} {names : List String}
    (hwanted : ∀ id ∈ demand, ∀ shape ∈ wanted, b.get? id = some shape)
    (h : tableResult demand wanted names types b = (t, c)) :
    c.FitsTable ((names.zip types).map fun (name, type) => (⟨name, type, false⟩ : Property)) t := by
  obtain ⟨table, b₁, htable, h⟩ := run_bind h
  have hget : b₁.get? table = some (.table _) := TypeArena.get?_of_intern htable
  split at h
  · next id name gs ps _ =>
    obtain ⟨shape, b₂, hshape, h⟩ := run_bind h
    have hb₁ : b.Extends b₁ := TypeArena.extends_of_intern htable
    have hb₂ : b₁.Extends b₂ := TypeArena.extends_of_intern hshape
    obtain ⟨_, _, hread, h⟩ := run_bind h
    cases hread
    split at h
    · next hfits =>
      cases h
      have hid := hwanted _ rfl _ rfl
      exact ⟨table, hb₂.get? hget, .inr ⟨name, gs, ps, shape, hb₂.get? (hb₁.get? hid),
        TypeArena.get?_of_intern hshape, hfits⟩⟩
    · cases h
      exact ⟨_, hb₂.get? hget, .inl rfl⟩
  · cases h
    exact ⟨_, hget, .inl rfl⟩

theorem satisfied_element {element : TypeId}
    (h : Satisfied b (List.replicate types.length (demandOf element)) types) :
    ∀ x ∈ types, b.Meets element x :=
  fun x hx => meets_of_demandOf (satisfied_replicate h (Nat.le_refl _) x hx)

theorem meets_commonType : ∀ x ∈ types, b.Meets (commonType types) x := by
  intro x hx hany
  cases types with
  | nil => cases hx
  | cons t ts =>
    have hcommon : commonType (t :: ts) = if ts.all (· == t) then t else .any := rfl
    rw [hcommon] at hany ⊢
    split at hany
    · next hall =>
      rw [if_pos hall]
      rcases List.mem_cons.1 hx with rfl | hx
      · exact b.compatible_self x
      · rw [beq_iff_eq.1 (List.all_eq_true.1 hall x hx)]
        exact b.compatible_self t
    · exact absurd rfl hany

/-- Labels tell how many entries there are, and which are named. -/
theorem isEntry_eq_of_labels {entries entries' : List Expr}
    (h : entries'.map Expr.label? = entries.map Expr.label?) :
    entries'.length = entries.length ∧ entries'.all Expr.isEntry = entries.all Expr.isEntry ∧
      entries'.any Expr.isEntry = entries.any Expr.isEntry := by
  have hentries : entries'.map Expr.isEntry = entries.map Expr.isEntry := by
    simpa only [List.map_map, Function.comp_def, ← isEntry_eq_label?] using
      congrArg (List.map Option.isSome) h
  refine ⟨?_, ?_, ?_⟩
  · simpa only [List.length_map] using congrArg List.length h
  · simpa only [List.all_map, Function.id_comp] using congrArg (List.all · id) hentries
  · simpa only [List.any_map, Function.id_comp] using congrArg (List.any · id) hentries

/-- The plan for a table gives a type that fits it. -/
theorem tablePlan_spec {entries entries' : List Expr} (hab : a.Extends b)
    (hlabels : entries'.map Expr.label? = entries.map Expr.label?)
    (hnamed : entries'.all Expr.isEntry = true)
    (h : (tablePlan a vars demand entries).result (entries'.map Expr.type) b = (t, c)) :
    c.FitsTable (entryProperties vars entries') t := by
  rw [← zip_entryNames hnamed, entryNames_eq_of_labels hlabels]
  refine tableResult_spec (fun id hid shape hshape => ?_) h
  rw [Option.mem_def.1 hid] at hshape
  exact hab.get? hshape

/-- A planned constructor is consistent when its entries are as the plan demands. -/
theorem constructorPlan_spec {entries entries' : List Expr} {plan : ConstructorPlan} {tag : Tag}
    (hplan : constructorPlan a vars demand entries span = .ok plan) (hab : a.Extends b)
    (hlabels : entries'.map Expr.label? = entries.map Expr.label?)
    (hmet : plan.report.isSome → Satisfied b plan.demands (entries'.map Expr.type))
    (h : plan.result (entries'.map Expr.type) b = (t, c)) :
    (Expr.constructor entries' { tag with type := t }).Consistent c vars := by
  -- checking keeps the labels, so named entries stay named and bare ones bare
  obtain ⟨hlen, hall, hany⟩ := isEntry_eq_of_labels hlabels
  cases planned_of_ok hplan with
  | @empty id element hempty _ hget =>
    obtain rfl : entries' = [] := List.eq_nil_of_length_eq_zero (by rw [hlen, hempty]; rfl)
    cases h
    exact .inr (.inl ⟨fun h => (nomatch h), element, hab.get? hget, fun e he => nomatch he⟩)
  | unknown hempty =>
    obtain rfl : entries' = [] := List.eq_nil_of_length_eq_zero (by rw [hlen, hempty]; rfl)
    cases h
    exact .inr (.inr ⟨rfl, rfl⟩)
  | table hnamed =>
    rw [← hall] at hnamed
    exact .inl ⟨hnamed, tablePlan_spec hab hlabels hnamed h⟩
  | array hbare =>
    refine .inr (.inl ⟨by rw [hany, hbare]; exact Bool.false_ne_true, _,
      TypeArena.get?_of_intern h, fun e he => ?_⟩)
    exact meets_commonType _ (List.mem_map_of_mem he)
  | @wanted id element hbare _ hget =>
    cases h
    refine .inr (.inl ⟨by rw [hany, hbare]; exact Bool.false_ne_true, element, hab.get? hget,
      fun e he => satisfied_element ?_ _ (List.mem_map_of_mem he)⟩)
    rw [List.length_map, hlen]
    exact hmet rfl

end

end TypedLua
