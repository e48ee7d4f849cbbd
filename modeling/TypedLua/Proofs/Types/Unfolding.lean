import TypedLua.Proofs.Types.Embedding

/-!
# Types.Unfolding

The structure that a type id stands for: a finite tree without ids, one layer at each node.  In a
grounded arena a type unfolds to its layer over the unfoldings of its parts, and growth of the arena
changes no unfolding.  Replacing parameters is defined on the trees, for all parameters at once.
-/

namespace TypedLua

/-! ## Trees -/

/-- One layer of a type without the ids of its parts; how many parts there are can still be seen. -/
def Shape.blank : Shape → Shape
  | .primitive p => .primitive p
  | .generic name => .generic name
  | .array _ => .array default
  | .vararg _ => .vararg default
  | .function arguments returns =>
    .function (arguments.map fun _ => default) (returns.map fun _ => default)
  | .table properties => .table (properties.map fun p => { p with type := default })
  | .interface name generics properties =>
    .interface name (generics.map fun _ => default)
      (properties.map fun p => { p with type := default })

theorem Shape.Rel.blank_eq {r : TypeId → TypeId → Prop} {s t : Shape} (h : Shape.Rel r s t) :
    s.blank = t.blank := by
  have hprop : ∀ p q, Property.Rel r p q →
      ({ p with type := default } : Property) = { q with type := default } := by
    intro p q hpq
    rw [hpq.name, hpq.optional]
  cases h with
  | primitive p => rfl
  | generic name => rfl
  | array h => rfl
  | vararg h => rfl
  | function hx hu =>
    simp only [Shape.blank]
    rw [map_eq_map_of_forall₂ hx fun _ _ _ => rfl, map_eq_map_of_forall₂ hu fun _ _ _ => rfl]
  | table hps =>
    simp only [Shape.blank]
    rw [map_eq_map_of_forall₂ hps hprop]
  | interface name hg hps =>
    simp only [Shape.blank]
    rw [map_eq_map_of_forall₂ hg fun _ _ _ => rfl, map_eq_map_of_forall₂ hps hprop]

/-- What a type is, without ids. -/
inductive TypeTree where
  /-- A parameter of an interface. -/
  | parameter (name : String)
  /-- Any other layer with the trees of its parts, from left to right. -/
  | node (layer : Shape) (parts : List TypeTree)
  /-- Nothing: the id denotes no type. -/
  | absent

namespace TypeTree

/-- The tree of a shape, given the trees of its parts. -/
def ofShape (part : TypeId → TypeTree) : Shape → TypeTree
  | .generic name => parameter name
  | s => node s.blank (s.parts.map part)

mutual

/-- Replace parameters, all at once. -/
def replace (σ : String → Option TypeTree) : TypeTree → TypeTree
  | parameter name => (σ name).getD (parameter name)
  | node layer parts => node layer (replaceAll σ parts)
  | absent => absent

/-- Replace parameters in trees. -/
def replaceAll (σ : String → Option TypeTree) : List TypeTree → List TypeTree
  | [] => []
  | t :: ts => t.replace σ :: replaceAll σ ts

end

mutual

/-- The parameters that occur in a tree. -/
def parameters : TypeTree → List String
  | parameter name => [name]
  | node _ parts => parametersAll parts
  | absent => []

/-- The parameters that occur in trees. -/
def parametersAll : List TypeTree → List String
  | [] => []
  | t :: ts => t.parameters ++ parametersAll ts

end

mutual

/-- Induction by parts. -/
theorem induct {P : TypeTree → Prop} (parameter : ∀ name, P (parameter name))
    (node : ∀ layer parts, (∀ part ∈ parts, P part) → P (node layer parts)) (absent : P absent) :
    ∀ t, P t
  | .parameter name => parameter name
  | .node layer parts => node layer parts (inductAll parameter node absent parts)
  | .absent => absent

theorem inductAll {P : TypeTree → Prop} (parameter : ∀ name, P (.parameter name))
    (node : ∀ layer parts, (∀ part ∈ parts, P part) → P (.node layer parts))
    (absent : P .absent) : ∀ (ts : List TypeTree), ∀ t ∈ ts, P t
  | [] => fun _ h => absurd h List.not_mem_nil
  | t :: ts =>
    List.forall_mem_cons.2 ⟨induct parameter node absent t, inductAll parameter node absent ts⟩

end

@[simp] theorem replaceAll_eq_map (σ : String → Option TypeTree) (ts : List TypeTree) :
    replaceAll σ ts = ts.map (replace σ) := by
  induction ts with
  | nil => rfl
  | cons t ts ih => rw [replaceAll, ih, List.map_cons]

@[simp] theorem parametersAll_eq_flatMap (ts : List TypeTree) :
    parametersAll ts = ts.flatMap parameters := by
  induction ts with
  | nil => rfl
  | cons t ts ih => rw [parametersAll, ih, List.flatMap_cons]

theorem replace_node (σ : String → Option TypeTree) (layer : Shape) (parts : List TypeTree) :
    (node layer parts).replace σ = node layer (parts.map (replace σ)) := by
  rw [replace, replaceAll_eq_map]

theorem mem_parameters_of_mem {layer : Shape} {parts : List TypeTree} {t : TypeTree}
    {name : String} (ht : t ∈ parts) (hn : name ∈ t.parameters) :
    name ∈ (node layer parts).parameters := by
  rw [parameters, parametersAll_eq_flatMap]
  exact List.mem_flatMap.2 ⟨t, ht, hn⟩

/-- Only the parameters in a tree matter. -/
theorem replace_congr {σ τ : String → Option TypeTree} (t : TypeTree) :
    (∀ name ∈ t.parameters, σ name = τ name) → t.replace σ = t.replace τ := by
  induction t using induct with
  | parameter name =>
    intro h
    rw [replace, replace, h name (by rw [parameters]; exact List.mem_cons_self)]
  | node layer parts ih =>
    intro h
    rw [replace_node, replace_node]
    congr 1
    exact List.map_congr_left fun part hp =>
      ih part hp fun name hn => h name (mem_parameters_of_mem hp hn)
  | absent => intro _; rfl

/-- Two replacements are one. -/
theorem replace_replace (σ τ : String → Option TypeTree) (t : TypeTree) :
    (t.replace σ).replace τ = t.replace fun name => ((σ name).map (replace τ)).or (τ name) := by
  induction t using induct with
  | parameter name =>
    rw [replace, replace]
    cases σ name with
    | some u => rfl
    | none => rw [Option.getD_none, replace, Option.map_none, Option.none_or]
  | node layer parts ih =>
    rw [replace_node, replace_node, replace_node, List.map_map]
    congr 1
    exact List.map_congr_left ih
  | absent => rfl

/-- A parameter that is replaced by itself stays. -/
theorem replace_self {σ : String → Option TypeTree} (t : TypeTree) :
    (∀ name ∈ t.parameters, σ name = some (parameter name)) → t.replace σ = t := by
  induction t using induct with
  | parameter name =>
    intro h
    rw [replace, h name (by rw [parameters]; exact List.mem_cons_self)]
    rfl
  | node layer parts ih =>
    intro h
    rw [replace_node]
    congr 1
    refine (List.map_congr_left fun part hp => ?_).trans (List.map_id _)
    exact ih part hp fun name hn => h name (mem_parameters_of_mem hp hn)
  | absent => intro _; rfl

end TypeTree

theorem Shape.Rel.ofShape_eq {r : TypeId → TypeId → Prop} {f g : TypeId → TypeTree} {s t : Shape}
    (h : Shape.Rel r s t) (hfg : ∀ x y, r x y → f x = g y) :
    TypeTree.ofShape f s = TypeTree.ofShape g t := by
  have hnode : TypeTree.node s.blank (s.parts.map f) = .node t.blank (t.parts.map g) := by
    rw [h.blank_eq, map_eq_map_of_forall₂ h.parts hfg]
  cases h with
  | generic name => rfl
  | _ => exact hnode

/-! ## Unfolding -/

namespace TypeArena

/-- The structure of a type, at most `fuel` layers deep. -/
def unfoldWithin (a : TypeArena) : Nat → TypeId → TypeTree
  | 0, _ => .absent
  | fuel + 1, id =>
    match a.get? id with
    | some s => .ofShape (a.unfoldWithin fuel) s
    | none => .absent

/-- The structure of a type.  A type is nested less deep than there are types. -/
def unfold (a : TypeArena) (id : TypeId) : TypeTree := a.unfoldWithin (a.size + 1) id

variable {r : TypeId → TypeId → Prop} {a b : TypeArena}

theorem Embeds.unfoldWithin_eq (h : Embeds r a b) (ha : a.Grounded) :
    ∀ (n m : Nat) (x y : TypeId), r x y → x.index < n → x.index < m →
      a.unfoldWithin n x = b.unfoldWithin m y := by
  intro n
  induction n with
  | zero => intro m x y _ hn; omega
  | succ n ih =>
    intro m x y hxy hn hm
    obtain ⟨m, rfl⟩ : ∃ k, m = k + 1 := ⟨m - 1, by omega⟩
    obtain ⟨s, t, hs, ht, hst⟩ := h.layer ha hxy
    rw [unfoldWithin, unfoldWithin, hs, ht]
    refine hst.ofShape_eq ?_
    rintro u v ⟨huv, hlt⟩
    exact ih m u v huv (by omega) (by omega)

/-- Related ids stand for the same tree. -/
theorem Alike.unfold_eq (h : Alike r a b) {x y : TypeId} (hxy : r x y) :
    a.unfold x = b.unfold y := by
  have hx : x.index < a.size := (h.embeds.holds hxy).1
  have hsize := h.size_le
  exact h.embeds.unfoldWithin_eq h.grounded _ _ x y hxy (by omega) (by omega)

/-- A type of one arena and a type of another have one structure. -/
structure SameStructure (a b : TypeArena) (x y : TypeId) : Prop where
  left : a.Holds x
  right : b.Holds y
  unfold_eq : a.unfold x = b.unfold y

/-- Growing an arena does not change what its ids stand for. -/
theorem Grounded.unfold_extends (ha : a.Grounded) (h : a.Extends b) {x : TypeId}
    (hx : a.Holds x) : b.unfold x = a.unfold x :=
  ((ha.alike h).unfold_eq ⟨rfl, hx⟩).symm

/-- An id stands for its layer over the trees of the parts. -/
theorem Grounded.unfold_eq (ha : a.Grounded) {x : TypeId} {s : Shape} (hs : a.get? x = some s) :
    a.unfold x = .ofShape a.unfold s := by
  have hx : x.index < a.size := holds_of_get? hs
  rw [unfold, unfoldWithin, hs]
  refine Shape.Rel.ofShape_eq (r := fun u v => a.Same u v ∧ u.index < x.index) ?_ ?_
  · refine Shape.Rel.refl fun part hp => ?_
    exact ⟨⟨rfl, ha.holds_part hs hp⟩, ha.older hs part hp⟩
  · rintro u v ⟨huv, hlt⟩
    exact (ha.alike (.refl a)).embeds.unfoldWithin_eq ha _ _ u v huv (by omega) (by omega)

end TypeArena

end TypedLua
