import TypedLua.Proofs.Types.Inhabitants
import TypedLua.Proofs.Types.Interning

/-!
# Types.Comparison

Comparing types as a relation.  One id is taken for granted to take itself; any other comparison
goes one layer down.  Where no property of a table is optional, compatibility is a preorder.  Where
no table repeats a name, comparing ids adds nothing: what a type takes can be told from the
structures alone.

On the structures an optional property is excused from having a counterpart only if the other table
has none of its name.  Were it excused from fitting such a counterpart too, more would be taken
(`compatible_not_lenient`).

Main statements: `compatible_preorder` and `compatible_structural`.
-/

namespace TypedLua

/-! ## One layer -/

/-- The properties of a table. -/
def Shape.tableProperties : Shape → List Property
  | .table ps => ps
  | _ => []

namespace TypeArena

variable {a : TypeArena} {x y : TypeId} {s t : Shape}

/-- Types are compared layer by layer. -/
theorem Grounded.compatible_layer (ha : a.Grounded) (hs : a.get? x = some s)
    (ht : a.get? y = some t) : a.compatible x y = (x == y || s.takes a.compatible t) := by
  have htakes : s.takes (a.compatibleWithin (a.size * a.size)) t = s.takes a.compatible t := by
    refine Shape.Rel.takes_eq (r := a.Same) (q := a.Same)
      (.refl fun part hp => ⟨rfl, ha.holds_part hs hp⟩)
      (.refl fun part hp => ⟨rfl, ha.holds_part ht hp⟩) ?_
    rintro u _ v _ ⟨rfl, hu⟩ ⟨rfl, hv⟩
    -- parts are older, so fewer layers are enough to compare them
    have hsize : u.index < a.size := hu
    have hsquare : a.size ≤ a.size * a.size := Nat.le_mul_self _
    exact ha.compatibleWithin_eq hu hv (by omega)
  rw [← htakes, compatible, compatibleWithin, hs, ht]

theorem exists_layers (h : a.compatible x y = true) :
    x = y ∨ ∃ s t, a.get? x = some s ∧ a.get? y = some t := by
  rw [compatible, compatibleWithin, Bool.or_eq_true, beq_iff_eq] at h
  refine h.imp_right fun h => ?_
  cases hx : a.get? x with
  | none => simp [hx] at h
  | some s =>
    cases hy : a.get? y with
    | none => simp [hx, hy] at h
    | some t => exact ⟨s, t, rfl, rfl⟩

end TypeArena

/-! ## A preorder -/

variable {r : TypeId → TypeId → Bool}

theorem allPairs_trans {xs ys zs : List TypeId}
    (hr : ∀ x ∈ xs, ∀ y z, r x y = true → r y z = true → r x z = true)
    (hxy : allPairs r xs ys = true) (hyz : allPairs r ys zs = true) : allPairs r xs zs = true := by
  induction xs generalizing ys zs with
  | nil =>
    cases ys with
    | nil => exact hyz
    | cons y ys => simp [allPairs] at hxy
  | cons x xs ih =>
    cases ys with
    | nil => simp [allPairs] at hxy
    | cons y ys =>
      cases zs with
      | nil => simp [allPairs] at hyz
      | cons z zs =>
        simp only [allPairs, List.length_cons, List.zip_cons_cons, List.all_cons, Bool.and_eq_true,
          beq_iff_eq, Nat.add_right_cancel_iff] at hxy hyz ih ⊢
        obtain ⟨hlen, hfirst, hrest⟩ := hxy
        obtain ⟨hlen', hfirst', hrest'⟩ := hyz
        obtain ⟨hlen'', hrest''⟩ := ih (fun u hu => hr u (List.mem_cons_of_mem x hu))
          ⟨hlen, hrest⟩ ⟨hlen', hrest'⟩
        exact ⟨hlen'', hr x List.mem_cons_self y z hfirst hfirst', hrest''⟩

/-- One layer is compared transitively if its parts are. -/
theorem Shape.takes_trans {s t u : Shape} (hs : ∀ p ∈ s.tableProperties, p.optional = false)
    (ht : ∀ p ∈ t.tableProperties, p.optional = false)
    (hr : ∀ x ∈ s.parts, ∀ y z, r x y = true → r y z = true → r x z = true)
    (hst : s.takes r t = true) (htu : t.takes r u = true) : s.takes r u = true := by
  cases s <;> cases t <;> cases u <;>
    simp only [Shape.takes, Bool.false_eq_true, Bool.and_eq_true, beq_iff_eq] at hst htu ⊢
  case primitive => exact hst.trans htu
  case generic => exact hst.trans htu
  case array x y z => exact hr x List.mem_cons_self y z hst htu
  case vararg x y z => exact hr x List.mem_cons_self y z hst htu
  case function xs us ys vs zs ws =>
    exact ⟨allPairs_trans (fun x hx => hr x (List.mem_append_left us hx)) hst.1 htu.1,
      allPairs_trans (fun x hx => hr x (List.mem_append_right xs hx)) hst.2 htu.2⟩
  case table ps qs os =>
    rw [List.all_eq_true] at hst htu ⊢
    intro p hp
    have hpq := hst p hp
    cases hq : findProperty qs p.name with
    | none => simp [hq, hs p hp] at hpq
    | some q =>
      -- the counterpart in the middle is a property that was itself compared with the last table
      obtain ⟨hqmem, hname⟩ := TypeArena.findProperty_mem hq
      have hqo := htu q hqmem
      rw [hname] at hqo
      cases ho : findProperty os p.name with
      | none => simp [ho, ht q hqmem] at hqo
      | some o =>
        simp only [hq, ho] at hpq hqo ⊢
        exact hr p.type (List.mem_map_of_mem hp) q.type o.type hpq hqo
  case interface => exact ⟨hst.1.trans htu.1, hst.2.trans htu.2⟩

namespace TypeArena

variable {a : TypeArena}

/-- Without optional properties comparing is transitive. -/
theorem Grounded.compatible_trans (ha : a.Grounded)
    (hrequired : ∀ s ∈ a.shapes, ∀ p ∈ s.tableProperties, p.optional = false) (n : Nat) :
    ∀ x y z : TypeId, x.index < n → a.compatible x y = true → a.compatible y z = true →
      a.compatible x z = true := by
  -- the induction is on the id of the first type, whose parts are older than it is
  induction n with
  | zero => intro x y z hn; omega
  | succ n ih =>
    intro x y z hn hxy hyz
    rcases exists_layers hxy with rfl | ⟨s, t, hs, ht⟩
    · exact hyz
    rcases exists_layers hyz with rfl | ⟨t', u, ht', hu⟩
    · exact hxy
    obtain rfl := Option.some.inj (ht.symm.trans ht')
    rw [ha.compatible_layer hs ht, Bool.or_eq_true, beq_iff_eq] at hxy
    rw [ha.compatible_layer ht hu, Bool.or_eq_true, beq_iff_eq] at hyz
    rcases hxy with rfl | hst
    · rwa [ha.compatible_layer ht hu, Bool.or_eq_true, beq_iff_eq]
    rcases hyz with rfl | htu
    · rw [ha.compatible_layer hs ht, hst, Bool.or_true]
    have hsu : s.takes a.compatible u = true := by
      refine Shape.takes_trans (hrequired s (List.mem_of_getElem? hs))
        (hrequired t (List.mem_of_getElem? ht)) (fun p hp v w => ?_) hst htu
      have hlt := ha.older hs p hp
      exact ih p v w (by omega)
    rw [ha.compatible_layer hs hu, hsu, Bool.or_true]

/-- **Compatibility is a preorder** in every arena that calls lead to, if no property of a table is
optional. -/
theorem compatible_preorder (h : Reached a)
    (hrequired : ∀ s ∈ a.shapes, ∀ p ∈ s.tableProperties, p.optional = false) :
    (∀ x, a.compatible x x = true) ∧
      ∀ x y z, a.compatible x y = true → a.compatible y z = true → a.compatible x z = true :=
  ⟨a.compatible_self, fun x y z =>
    h.grounded.compatible_trans hrequired (x.index + 1) x y z (Nat.lt_succ_self _)⟩

/-- Three tables, the last of which repeats a name. -/
theorem compatible_preorder_tables :
    let a := (Call.form (.table [⟨"x", ⟨1⟩, false⟩, ⟨"x", ⟨0⟩, false⟩])).run
      ((Call.form (.table [⟨"x", ⟨1⟩, false⟩])).run ((Call.form (.table [])).run primitives))
    a.compatible ⟨7⟩ ⟨8⟩ = true ∧ a.compatible ⟨8⟩ ⟨9⟩ = true ∧ a.compatible ⟨7⟩ ⟨9⟩ = true := by
  intro a
  have h : Reached a := .call _ (.call _ (.call _ .new (by decide)) (by decide)) (by decide)
  have hfirst : a.compatible ⟨7⟩ ⟨8⟩ = true := by decide
  have hsecond : a.compatible ⟨8⟩ ⟨9⟩ = true := by decide
  exact ⟨hfirst, hsecond, (compatible_preorder h (by decide)).2 _ _ _ hfirst hsecond⟩

end TypeArena

/-! ## Structures -/

/-- Whether a declared layer takes another: the tests tell what the parts of the one take, in order,
and the parts are those of the other.  A property may be excused from having a counterpart that it
takes among the properties of the other. -/
def Shape.layerTakes (excused : Property → List Property → Bool) (tests : List (TypeTree → Bool))
    (parts : List TypeTree) : Shape → Shape → Bool
  | .primitive p, .primitive q => p == q
  | .array _, .array _ => (tests.zip parts).all fun (test, part) => test part
  | .vararg _, .vararg _ => (tests.zip parts).all fun (test, part) => test part
  | .function xs us, .function ys vs =>
    xs.length == ys.length && us.length == vs.length &&
      (tests.zip parts).all fun (test, part) => test part
  | .table ps, .table qs =>
    (ps.zip tests).all fun (p, test) =>
      (qs.zip parts).any (fun (q, part) => q.name == p.name && test part) || excused p qs
  | .interface n gs _, .interface m hs _ => n == m && gs.length == hs.length
  | _, _ => false

namespace TypeTree

mutual

/-- Whether a declared type takes values of another, told from their structures. -/
def takes (excused : Property → List Property → Bool) : TypeTree → TypeTree → Bool
  | parameter n, parameter m => n == m
  | node s ts, node t us => s.layerTakes excused (takesAll excused ts) us t
  | _, _ => false

/-- The tests for a list of declared types. -/
def takesAll (excused : Property → List Property → Bool) :
    List TypeTree → List (TypeTree → Bool)
  | [] => []
  | t :: ts => t.takes excused :: takesAll excused ts

end

@[simp] theorem takesAll_eq_map (excused : Property → List Property → Bool) (ts : List TypeTree) :
    takesAll excused ts = ts.map (takes excused) := by
  induction ts with
  | nil => rfl
  | cons t ts ih => rw [takesAll, ih, List.map_cons]

end TypeTree

/-- An optional property need not have a counterpart; if it has one, it has to take it. -/
def Property.mayLack (p : Property) (others : List Property) : Bool :=
  p.optional && !others.any fun q => q.name == p.name

theorem any_named {qs : List Property} (h : (qs.map Property.name).Nodup) (name : String)
    (test : Property → Bool) :
    qs.any (fun q => q.name == name && test q) = (findProperty qs name).any test := by
  induction qs with
  | nil => rfl
  | cons q qs ih =>
    obtain ⟨hnew, hrest⟩ := List.nodup_cons.1 h
    rw [List.any_cons, ih hrest]
    unfold findProperty
    rw [List.find?_cons]
    by_cases hq : q.name = name
    · -- the rest has none of the name
      have hnone : qs.find? (fun o => o.name == name) = none := by
        rw [List.find?_eq_none]
        intro o ho hname
        exact hnew (List.mem_map.2 ⟨o, ho, (beq_iff_eq.1 hname).trans hq.symm⟩)
      simp [hq, hnone]
    · simp [beq_false_of_ne hq]

theorem findProperty_self {ps : List Property} (h : (ps.map Property.name).Nodup) {p : Property}
    (hp : p ∈ ps) : findProperty ps p.name = some p := by
  have hany := any_named h p.name fun q => q == p
  rw [List.any_eq_true.2 ⟨p, hp, by simp⟩, eq_comm, Option.any_eq_true] at hany
  obtain ⟨q, hq, heq⟩ := hany
  rw [hq, beq_iff_eq.1 heq]

theorem any_named_or_mayLack {qs : List Property} (h : (qs.map Property.name).Nodup) (p : Property)
    (test : Property → Bool) :
    (qs.any (fun q => q.name == p.name && test q) || p.mayLack qs) =
      match findProperty qs p.name with
      | some q => test q
      | none => p.optional := by
  have hfound : (findProperty qs p.name).isSome = qs.any fun q => q.name == p.name :=
    List.isSome_find?
  rw [any_named h, Property.mayLack, ← hfound]
  cases findProperty qs p.name <;> simp

theorem Shape.takes_self {s : Shape} (hr : ∀ x, r x x = true)
    (h : (s.tableProperties.map Property.name).Nodup) : s.takes r s = true := by
  have hpairs : ∀ xs : List TypeId, allPairs r xs xs = true := by
    intro xs
    induction xs with
    | nil => rfl
    | cons x xs ih => simpa [allPairs, hr] using ih
  cases s <;> simp only [Shape.takes, beq_self_eq_true, hr, hpairs, Bool.and_self]
  case table ps =>
    rw [List.all_eq_true]
    intro p hp
    have hself : findProperty ps p.name = some p := findProperty_self h hp
    rw [hself]
    exact hr p.type

/-- Trees are compared as the layers that they are made of. -/
theorem TypeTree.takes_ofShape (f : TypeId → TypeTree) (s : Shape) {t : Shape}
    (h : (t.tableProperties.map Property.name).Nodup) :
    (ofShape f s).takes Property.mayLack (ofShape f t) =
      s.takes (fun x y => (f x).takes Property.mayLack (f y)) t := by
  have hpairs : ∀ xs ys : List TypeId,
      ((takesAll Property.mayLack (xs.map f)).zip (ys.map f)).all (fun pair => pair.1 pair.2) =
        (xs.zip ys).all fun pair => (f pair.1).takes Property.mayLack (f pair.2) := by
    intro xs ys
    rw [takesAll_eq_map, List.map_map, List.zip_map, List.all_map]
    rfl
  cases s with
  | array x =>
    cases t with
    | array y => exact (hpairs [x] [y]).trans (Bool.and_true _)
    | _ => rfl
  | vararg x =>
    cases t with
    | vararg y => exact (hpairs [x] [y]).trans (Bool.and_true _)
    | _ => rfl
  | function xs us =>
    cases t with
    | function ys vs =>
      simp only [ofShape, takes, Shape.layerTakes, Shape.takes, Shape.blank, Shape.parts, allPairs,
        hpairs, List.length_map]
      -- the parts are one list: arguments and returns line up if there are as many arguments
      by_cases hlen : xs.length = ys.length
      · rw [List.zip_append hlen, List.all_append, beq_iff_eq.2 hlen]
        simp only [Bool.true_and, Bool.and_left_comm]
      · rw [beq_false_of_ne hlen]
        rfl
    | _ => rfl
  | table ps =>
    cases t with
    | table qs =>
      simp only [ofShape, takes, Shape.layerTakes, Shape.takes, Shape.blank, Shape.parts,
        takesAll_eq_map, List.map_map, List.zip_map', List.all_map, List.any_map]
      congr 1
      funext p
      have hblank : Property.mayLack { p with type := default }
          (qs.map fun q => { q with type := default }) = p.mayLack qs := by
        rw [Property.mayLack, List.any_map]
        rfl
      rw [Function.comp_apply]
      dsimp only
      rw [hblank]
      exact any_named_or_mayLack h p fun q => (f p.type).takes Property.mayLack (f q.type)
    | _ => rfl
  | interface name gs ps =>
    cases t with
    | interface other hs qs => simp [ofShape, takes, Shape.layerTakes, Shape.takes, Shape.blank]
    | _ => rfl
  | _ => cases t <;> rfl

namespace TypeArena

variable {a : TypeArena}

theorem Grounded.compatible_eq_takes (ha : a.Grounded)
    (hnames : ∀ s ∈ a.shapes, (s.tableProperties.map Property.name).Nodup) {x y : TypeId}
    {s t : Shape} (hs : a.get? x = some s) (ht : a.get? y = some t) :
    a.compatible x y = s.takes a.compatible t := by
  rw [ha.compatible_layer hs ht]
  by_cases hxy : x = y
  · subst hxy
    obtain rfl := Option.some.inj (hs.symm.trans ht)
    rw [Shape.takes_self a.compatible_self (hnames s (List.mem_of_getElem? hs)), Bool.or_true]
  · rw [beq_false_of_ne hxy, Bool.false_or]

/-- Comparing ids compares the trees that they stand for. -/
theorem Grounded.compatible_eq_unfold (ha : a.Grounded)
    (hnames : ∀ s ∈ a.shapes, (s.tableProperties.map Property.name).Nodup) (n : Nat) :
    ∀ x y : TypeId, x.index < n → a.Holds x → a.Holds y →
      a.compatible x y = (a.unfold x).takes Property.mayLack (a.unfold y) := by
  induction n with
  | zero => intro x y hn; omega
  | succ n ih =>
    intro x y hn hx hy
    obtain ⟨s, hs⟩ := hx.get?
    obtain ⟨t, ht⟩ := hy.get?
    rw [ha.compatible_eq_takes hnames hs ht, ha.unfold_eq hs, ha.unfold_eq ht,
      TypeTree.takes_ofShape _ _ (hnames t (List.mem_of_getElem? ht))]
    refine Shape.Rel.takes_eq (r := fun u v => u = v ∧ u ∈ s.parts) (q := a.Same)
      (.refl fun part hp => ⟨rfl, hp⟩) (.refl fun part hp => ⟨rfl, ha.holds_part ht hp⟩) ?_
    rintro u _ v _ ⟨rfl, hu⟩ ⟨rfl, hv⟩
    have hlt := ha.older hs u hu
    exact ih u v (by omega) (ha.holds_part hs hu) hv

/-- **What a type takes can be told from structures alone**, without comparing ids, in every arena
that calls lead to and in which no table repeats a name. -/
theorem compatible_structural (h : Reached a)
    (hnames : ∀ s ∈ a.shapes, (s.tableProperties.map Property.name).Nodup) {x y : TypeId}
    (hx : a.Holds x) (hy : a.Holds y) :
    a.compatible x y = (a.unfold x).takes Property.mayLack (a.unfold y) :=
  h.grounded.compatible_eq_unfold hnames (x.index + 1) x y (Nat.lt_succ_self _) hx hy

/-- A table that lacks an optional property. -/
theorem compatible_structural_tables :
    let a := (Call.form (.table [⟨"y", ⟨0⟩, false⟩])).run
      ((Call.form (.table [⟨"x", ⟨1⟩, true⟩, ⟨"y", ⟨0⟩, false⟩])).run primitives)
    a.compatible ⟨7⟩ ⟨8⟩ = true ∧
      (a.unfold ⟨7⟩).takes Property.mayLack (a.unfold ⟨8⟩) = true := by
  intro a
  have h : Reached a := .call _ (.call _ .new (by decide)) (by decide)
  have htaken : a.compatible ⟨7⟩ ⟨8⟩ = true := by decide
  exact ⟨htaken, (compatible_structural h (by decide) (by decide) (by decide)).symm.trans htaken⟩

/-- **An optional property is not excused from fitting a counterpart.**  Were it, a table with a
number would take one with a string in its place. -/
theorem compatible_not_lenient :
    ¬ ∀ a : TypeArena, Reached a →
      (∀ s ∈ a.shapes, (s.tableProperties.map Property.name).Nodup) → ∀ x y, a.Holds x → a.Holds y →
        a.compatible x y = (a.unfold x).takes (fun p _ => p.optional) (a.unfold y) := by
  intro hall
  let a := (Call.form (.table [⟨"x", ⟨0⟩, false⟩])).run
    ((Call.form (.table [⟨"x", ⟨1⟩, true⟩])).run primitives)
  have h : Reached a := .call _ (.call _ .new (by decide)) (by decide)
  have hlenient := hall a h (by decide) ⟨7⟩ ⟨8⟩ (by decide) (by decide)
  exact absurd hlenient (by decide)

end TypeArena

end TypedLua
