import TypedLua.Number.Binary64
import TypedLua.Types.Compatibility

/-!
# Types.Inhabitants

What compatibility promises about data.  A value inhabits a type of strings, numbers, truth values,
`nil`, arrays and tables; a table constrains the fields that it names and allows others.

Compatibility takes two liberties with optional properties: a required property takes an optional
one, and an optional property takes its absence.  Both lose values (`compatible_loses_values`).
Where neither is taken, compatibility is sound (`inhabits_of_compatible`): every value of the one
type is a value of the other.
-/

namespace TypedLua

open Number

/-! ## Values -/

/-- A value of a program: plain data. -/
inductive Value where
  | nil
  | boolean (value : Bool)
  | number (value : Binary64)
  | string (value : String)
  | list (elements : List Value)
  /-- A finite map from names; of two entries of one name the first counts. -/
  | record (fields : List (String × Value))

variable {a : TypeArena} {x y u v : TypeId}

namespace TypeArena

/-- A value has a type.  A record has a table type if each property that it holds has the declared
type and each property that it lacks is optional. -/
inductive Inhabits (a : TypeArena) : Value → TypeId → Prop
  | nil {id : TypeId} : a.get? id = some (.primitive .nil) → Inhabits a .nil id
  | boolean {id : TypeId} (value : Bool) :
      a.get? id = some (.primitive .boolean) → Inhabits a (.boolean value) id
  | number {id : TypeId} (value : Binary64) :
      a.get? id = some (.primitive .number) → Inhabits a (.number value) id
  | string {id : TypeId} (value : String) :
      a.get? id = some (.primitive .string) → Inhabits a (.string value) id
  | list {id element : TypeId} {elements : List Value} :
      a.get? id = some (.array element) →
      (∀ v ∈ elements, Inhabits a v element) → Inhabits a (.list elements) id
  | record {id : TypeId} {properties : List Property} {fields : List (String × Value)} :
      a.get? id = some (.table properties) →
      (∀ p ∈ properties, ∀ v, fields.lookup p.name = some v → Inhabits a v p.type) →
      (∀ p ∈ properties, fields.lookup p.name = none → p.optional = true) →
      Inhabits a (.record fields) id

/-! ## Where a comparison leads -/

/-- The pairs of types that comparing `x` with `y` comes to.  Nothing is looked at inside a type
that is compared with itself. -/
inductive Compares (a : TypeArena) (x y : TypeId) : TypeId → TypeId → Prop
  | refl : Compares a x y x y
  | element {u v e f : TypeId} : Compares a x y u v → u ≠ v →
      a.get? u = some (.array e) → a.get? v = some (.array f) → Compares a x y e f
  | property {u v : TypeId} {ps qs : List Property} {p q : Property} :
      Compares a x y u v → u ≠ v →
      a.get? u = some (.table ps) → a.get? v = some (.table qs) →
      p ∈ ps → findProperty qs p.name = some q → Compares a x y p.type q.type

/-- Comparing `x` with `y` takes no liberty with optional properties: every property of a declared
table meets one of the value's table, which is optional only if the declared one is. -/
def OptionalsMatch (a : TypeArena) (x y : TypeId) : Prop :=
  ∀ u v ps qs, Compares a x y u v → u ≠ v →
    a.get? u = some (.table ps) → a.get? v = some (.table qs) →
    ∀ p ∈ ps, ∃ q, findProperty qs p.name = some q ∧ (q.optional = true → p.optional = true)

theorem Compares.trans {s t : TypeId} (h : Compares a x y u v) (k : Compares a u v s t) :
    Compares a x y s t := by
  induction k with
  | refl => exact h
  | element _ hne hu hv ih => exact .element ih hne hu hv
  | property _ hne hu hv hp hq ih => exact .property ih hne hu hv hp hq

/-- What is compared further down matches too. -/
theorem OptionalsMatch.of_compares (h : OptionalsMatch a x y) (k : Compares a x y u v) :
    OptionalsMatch a u v := by
  intro s t ps qs hst
  exact h s t ps qs (k.trans hst)

/-! ## Soundness -/

theorem findProperty_mem {ps : List Property} {name : String} {p : Property}
    (h : findProperty ps name = some p) : p ∈ ps ∧ p.name = name := by
  constructor
  · exact List.mem_of_find?_eq_some h
  · have := List.find?_some h
    simpa using this

theorem eq_of_takes_primitive {r : TypeId → TypeId → Bool} {s : Shape} {q : Primitive}
    (h : s.takes r (.primitive q) = true) : s = .primitive q := by
  cases s <;> simp only [Shape.takes, Bool.false_eq_true, beq_iff_eq] at h
  rw [h]

/-- One layer takes the values of the other if the parts do. -/
theorem inhabits_of_takes {r : TypeId → TypeId → Bool} {s t : Shape} (hne : x ≠ y)
    (hx : a.get? x = some s) (hy : a.get? y = some t) (hm : OptionalsMatch a x y)
    (ht : s.takes r t = true)
    (hr : ∀ u v, OptionalsMatch a u v → r u v = true → ∀ w, a.Inhabits w v → a.Inhabits w u)
    {w : Value} (hw : a.Inhabits w y) : a.Inhabits w x := by
  cases hw with
  | nil h =>
    rw [hy] at h
    cases h
    exact .nil (by rw [hx, eq_of_takes_primitive ht])
  | boolean b h =>
    rw [hy] at h
    cases h
    exact .boolean b (by rw [hx, eq_of_takes_primitive ht])
  | number n h =>
    rw [hy] at h
    cases h
    exact .number n (by rw [hx, eq_of_takes_primitive ht])
  | string n h =>
    rw [hy] at h
    cases h
    exact .string n (by rw [hx, eq_of_takes_primitive ht])
  | @list _ f elements h hall =>
    rw [hy] at h
    cases h
    cases s <;> simp only [Shape.takes, Bool.false_eq_true] at ht
    rename_i e
    -- elements are compared next, so the condition carries over to them
    have hef : OptionalsMatch a e f := hm.of_compares (.element .refl hne hx hy)
    exact .list hx fun v hv => hr e f hef ht v (hall v hv)
  | @record _ qs fields h hheld hlacked =>
    rw [hy] at h
    cases h
    cases s <;> simp only [Shape.takes, Bool.false_eq_true] at ht
    rename_i ps
    rw [List.all_eq_true] at ht
    refine .record hx ?_ ?_
    · intro p hp v hv
      -- a property that the value has is the one of that name in its own table
      obtain ⟨q, hq, -⟩ := hm x y ps qs .refl hne hx hy p hp
      obtain ⟨hqmem, hqname⟩ := findProperty_mem hq
      have hpq : r p.type q.type = true := by
        have := ht p hp
        rwa [hq] at this
      have hmatch : OptionalsMatch a p.type q.type :=
        hm.of_compares (.property .refl hne hx hy hp hq)
      exact hr p.type q.type hmatch hpq v (hheld q hqmem v (by rw [hqname]; exact hv))
    · intro p hp hnone
      -- a property that the value lacks is optional in its own table, hence in the declared one
      obtain ⟨q, hq, hopt⟩ := hm x y ps qs .refl hne hx hy p hp
      obtain ⟨hqmem, hqname⟩ := findProperty_mem hq
      exact hopt (hlacked q hqmem (by rw [hqname]; exact hnone))

/-- By induction on the fuel. -/
theorem inhabits_of_compatibleWithin (fuel : Nat) :
    ∀ x y, OptionalsMatch a x y → a.compatibleWithin fuel x y = true →
      ∀ v, a.Inhabits v y → a.Inhabits v x := by
  induction fuel with
  | zero =>
    intro x y _ hc v hv
    rw [compatibleWithin, beq_iff_eq] at hc
    rw [hc]
    exact hv
  | succ fuel ih =>
    intro x y hm hc v hv
    by_cases hxy : x = y
    · rw [hxy]
      exact hv
    · simp only [compatibleWithin, beq_false_of_ne hxy, Bool.false_or] at hc
      cases hx : a.get? x with
      | none => simp [hx] at hc
      | some s =>
        cases hy : a.get? y with
        | none => simp [hx, hy] at hc
        | some t =>
          simp only [hx, hy] at hc
          exact inhabits_of_takes hxy hx hy hm hc ih hv

/-- **Compatibility is sound for data** wherever it takes no liberty with optional properties: a
value of type `value` may be used where `declared` is declared. -/
theorem inhabits_of_compatible (a : TypeArena) (declared value : TypeId)
    (hc : a.compatible declared value = true) (hm : a.OptionalsMatch declared value) (v : Value)
    (hv : a.Inhabits v value) : a.Inhabits v declared :=
  inhabits_of_compatibleWithin _ declared value hm hc v hv

/-! ## The two liberties -/

/-- Tables with the one property `x`, required and optional; a wider table, the empty table, and
arrays of the first tables. -/
def tablesOfNumbers : TypeArena where
  shapes := primitives.shapes ++
    [.table [⟨"x", ⟨1⟩, false⟩], .table [⟨"x", ⟨1⟩, true⟩],
      .table [⟨"x", ⟨1⟩, false⟩, ⟨"y", ⟨0⟩, false⟩], .table [], .array ⟨8⟩, .array ⟨9⟩]

theorem compares_arrays (h : tablesOfNumbers.Compares ⟨11⟩ ⟨12⟩ u v) :
    (u, v) ∈ [((⟨11⟩, ⟨12⟩) : TypeId × TypeId), (⟨8⟩, ⟨9⟩), (⟨1⟩, ⟨1⟩)] := by
  induction h with
  | refl => decide
  | element _ hne hu hv ih =>
    simp only [List.mem_cons, Prod.mk.injEq, List.not_mem_nil, or_false] at ih
    rcases ih with ⟨rfl, rfl⟩ | ⟨rfl, rfl⟩ | ⟨rfl, rfl⟩
    · cases hu
      cases hv
      decide
    · cases hu
    · exact absurd rfl hne
  | property _ hne hu hv hp hq ih =>
    simp only [List.mem_cons, Prod.mk.injEq, List.not_mem_nil, or_false] at ih
    rcases ih with ⟨rfl, rfl⟩ | ⟨rfl, rfl⟩ | ⟨rfl, rfl⟩
    · cases hu
    · cases hu
      cases hv
      rw [List.mem_singleton] at hp
      subst hp
      cases hq
      decide
    · exact absurd rfl hne

/-- A list of records with an extra field, used where an optional property is declared. -/
theorem inhabits_array_of_wider :
    tablesOfNumbers.compatible ⟨11⟩ ⟨12⟩ = true ∧
      tablesOfNumbers.Inhabits
        (.list [.record [("x", .number default), ("y", .string "s")]]) ⟨11⟩ := by
  have hc : tablesOfNumbers.compatible ⟨11⟩ ⟨12⟩ = true := by decide
  have hm : tablesOfNumbers.OptionalsMatch ⟨11⟩ ⟨12⟩ := by
    intro u v ps qs huv hne hu hv p hp
    have hmem := compares_arrays huv
    simp only [List.mem_cons, Prod.mk.injEq, List.not_mem_nil, or_false] at hmem
    rcases hmem with ⟨rfl, rfl⟩ | ⟨rfl, rfl⟩ | ⟨rfl, rfl⟩
    · cases hu
    · cases hu
      cases hv
      rw [List.mem_singleton] at hp
      subst hp
      exact ⟨⟨"x", ⟨1⟩, false⟩, rfl, by decide⟩
    · exact absurd rfl hne
  refine ⟨hc, inhabits_of_compatible _ _ _ hc hm _ (.list rfl ?_)⟩
  intro v hv
  rw [List.mem_singleton] at hv
  subst hv
  refine .record rfl ?_ ?_
  · intro p hp v hv
    simp only [List.mem_cons, List.not_mem_nil, or_false] at hp
    rcases hp with rfl | rfl
    · cases hv
      exact .number _ rfl
    · cases hv
      exact .string _ rfl
  · intro p hp hnone
    simp only [List.mem_cons, List.not_mem_nil, or_false] at hp
    rcases hp with rfl | rfl <;> cases hnone

/-- **Both liberties lose values.**  A required property takes an optional one, though a record may
lack it; an optional property takes its absence, though a record may hold anything there. -/
theorem compatible_loses_values :
    (tablesOfNumbers.compatible ⟨7⟩ ⟨8⟩ = true ∧
      tablesOfNumbers.Inhabits (.record []) ⟨8⟩ ∧
      ¬ tablesOfNumbers.Inhabits (.record []) ⟨7⟩) ∧
    (tablesOfNumbers.compatible ⟨8⟩ ⟨10⟩ = true ∧
      tablesOfNumbers.Inhabits (.record [("x", .string "s")]) ⟨10⟩ ∧
      ¬ tablesOfNumbers.Inhabits (.record [("x", .string "s")]) ⟨8⟩) := by
  refine ⟨⟨by decide, ?_, ?_⟩, ⟨by decide, ?_, ?_⟩⟩
  · refine .record rfl ?_ ?_
    · intro p _ v hv
      cases hv
    · intro p hp _
      rw [List.mem_singleton] at hp
      rw [hp]
  · rintro (_ | _ | _ | _ | _ | ⟨hget, -, hlacked⟩)
    cases hget
    have := hlacked _ List.mem_cons_self rfl
    cases this
  · refine .record rfl ?_ ?_ <;> intro p hp <;> cases hp
  · rintro (_ | _ | _ | _ | _ | ⟨hget, hheld, -⟩)
    cases hget
    -- the field `x` would have to be a number
    have hx := hheld _ List.mem_cons_self _ rfl
    cases hx with
    | string _ h => cases h

end TypeArena

end TypedLua
