import TypedLua.Proofs.Types.Substitution

/-!
# Types.Instances

Instances of one interface in an arena.  They conform to a declaration if each has the declared
properties, with the parameters replaced by its own arguments, all at once.  The steps that make
instances keep this: rebuilding an instance with other arguments, and giving arguments to an
interface type whose arguments are parameters.

A declaration has to be closed for that.  A parameter of some other interface that occurs in it
would be replaced along with the arguments when an instance is rebuilt.

Main statements: `Conforms.rebuild`, `Uniform.instantiate` and `Undeclared.declare`.
-/

namespace TypedLua

/-! ## Parameters and what they stand for -/

theorem lookup_zip_map {α β : Type} (f : α → β) (names : List String) (xs : List α) (q : String) :
    (names.zip (xs.map f)).lookup q = ((names.zip xs).lookup q).map f := by
  induction names generalizing xs with
  | nil => rfl
  | cons name names ih =>
    cases xs with
    | nil => rfl
    | cons x xs =>
      rw [List.map_cons, List.zip_cons_cons, List.zip_cons_cons, List.lookup_cons,
        List.lookup_cons, ih]
      split
      · rfl
      · rfl

namespace TypeTree

/-- What parameters stand for, given trees in the order of their names. -/
def binding (names : List String) (trees : List TypeTree) (name : String) : Option TypeTree :=
  (names.zip trees).lookup name

variable {names : List String} {trees : List TypeTree} {σ : String → Option TypeTree}

theorem binding_cons (name : String) (tree : TypeTree) (q : String) :
    binding (name :: names) (tree :: trees) q =
      if q = name then some tree else binding names trees q := by
  unfold binding
  rw [List.zip_cons_cons, List.lookup_cons]
  by_cases hq : q = name
  · rw [if_pos hq, beq_iff_eq.2 hq]
  · rw [if_neg hq, beq_eq_false_iff_ne.2 hq]

theorem binding_map (f : TypeTree → TypeTree) (q : String) :
    binding names (trees.map f) q = (binding names trees q).map f :=
  lookup_zip_map f names trees q

theorem exists_binding (hlen : trees.length = names.length) {q : String} (hq : q ∈ names) :
    ∃ t, binding names trees q = some t := by
  induction names generalizing trees with
  | nil => cases hq
  | cons name names ih =>
    cases trees with
    | nil => cases hlen
    | cons tree trees =>
      rw [binding_cons]
      by_cases heq : q = name
      · exact ⟨tree, if_pos heq⟩
      · rw [if_neg heq]
        exact ih (Nat.succ.inj hlen) ((List.mem_cons.1 hq).resolve_left heq)

theorem binding_self {q : String} (hq : q ∈ names) :
    binding names (names.map parameter) q = some (parameter q) := by
  induction names with
  | nil => cases hq
  | cons name names ih =>
    rw [List.map_cons, binding_cons]
    by_cases heq : q = name
    · rw [if_pos heq, heq]
    · rw [if_neg heq]
      exact ih ((List.mem_cons.1 hq).resolve_left heq)

theorem map_replace_binding (hnames : names.Nodup) (hlen : trees.length = names.length) :
    (names.map parameter).map (replace (binding names trees)) = trees := by
  induction names generalizing trees with
  | nil => exact (List.eq_nil_of_length_eq_zero hlen).symm
  | cons name names ih =>
    cases trees with
    | nil => cases hlen
    | cons tree trees =>
      obtain ⟨hnew, hnames⟩ := List.nodup_cons.1 hnames
      have hhead : (parameter name).replace (binding (name :: names) (tree :: trees)) = tree := by
        rw [replace, binding_cons, if_pos rfl]
        rfl
      have htail : (names.map parameter).map (replace (binding (name :: names) (tree :: trees))) =
          (names.map parameter).map (replace (binding names trees)) := by
        rw [List.map_map, List.map_map]
        refine List.map_congr_left fun q hq => ?_
        have hne : q ≠ name := fun heq => hnew (heq ▸ hq)
        show (parameter q).replace _ = (parameter q).replace _
        rw [replace, replace, binding_cons, if_neg hne]
      rw [List.map_cons, List.map_cons, hhead, htail, ih hnames (Nat.succ.inj hlen)]

/-- Replacing in an instance replaces in its arguments. -/
theorem replace_binding_replace (hlen : trees.length = names.length) {t : TypeTree}
    (ht : ∀ q ∈ t.parameters, q ∈ names) :
    (t.replace (binding names trees)).replace σ =
      t.replace (binding names (trees.map (replace σ))) := by
  rw [replace_replace]
  refine replace_congr t fun q hq => ?_
  obtain ⟨u, hu⟩ := exists_binding hlen (ht q hq)
  rw [binding_map, hu]
  rfl

end TypeTree

/-! ## Declared properties -/

/-- A property with the structure of its type. -/
structure PropertyTree where
  name : String
  type : TypeTree
  optional : Bool

/-- Replace parameters in the type of a property. -/
def PropertyTree.replace (σ : String → Option TypeTree) (p : PropertyTree) : PropertyTree :=
  { p with type := p.type.replace σ }

/-- Only the given parameters occur in the properties. -/
def ClosedUnder (names : List String) (declared : List PropertyTree) : Prop :=
  ∀ p ∈ declared, ∀ q ∈ p.type.parameters, q ∈ names

theorem ClosedUnder.replace_replace {names : List String} {declared : List PropertyTree}
    (h : ClosedUnder names declared) {trees : List TypeTree} (hlen : trees.length = names.length)
    (σ : String → Option TypeTree) :
    (declared.map (PropertyTree.replace (TypeTree.binding names trees))).map
        (PropertyTree.replace σ) =
      declared.map (PropertyTree.replace
        (TypeTree.binding names (trees.map (TypeTree.replace σ)))) := by
  rw [List.map_map]
  refine List.map_congr_left fun p hp => ?_
  show PropertyTree.mk p.name ((p.type.replace _).replace σ) p.optional = .mk p.name _ p.optional
  rw [TypeTree.replace_binding_replace hlen (h p hp)]

/-- Parameters that are given themselves change nothing. -/
theorem ClosedUnder.replace_self {names : List String} {declared : List PropertyTree}
    (h : ClosedUnder names declared) :
    declared.map (PropertyTree.replace (TypeTree.binding names (names.map .parameter))) =
      declared := by
  -- every parameter that occurs is replaced by itself
  refine (List.map_congr_left fun p hp => ?_).trans (List.map_id _)
  show PropertyTree.mk p.name _ p.optional = p
  rw [TypeTree.replace_self _ fun q hq => TypeTree.binding_self (h p hp q hq)]

variable {s : Shape} {parameters : List String}

namespace TypeArena

variable {a b : TypeArena}

/-- Properties with the structures of their types. -/
def unfoldProperties (a : TypeArena) (ps : List Property) : List PropertyTree :=
  ps.map fun p => ⟨p.name, a.unfold p.type, p.optional⟩

theorem Grounded.unfoldProperties_extends (ha : a.Grounded) (hab : a.Extends b)
    {ps : List Property} (hps : ∀ p ∈ ps, a.Holds p.type) :
    b.unfoldProperties ps = a.unfoldProperties ps := by
  refine List.map_congr_left fun p hp => ?_
  rw [ha.unfold_extends hab (hps p hp)]

/-- Rebuilt properties have the trees with arguments in place. -/
theorem unfoldProperties_replaced {σ : String → Option TypeTree} {ps qs : List Property}
    (h : List.Forall₂ (Property.Rel (a.Replaced σ)) ps qs) :
    a.unfoldProperties qs = (a.unfoldProperties ps).map (PropertyTree.replace σ) := by
  unfold unfoldProperties
  rw [List.map_map]
  refine (map_eq_map_of_forall₂ h fun p q hpq => ?_).symm
  show PropertyTree.mk p.name _ p.optional = PropertyTree.mk q.name _ q.optional
  rw [hpq.name, hpq.optional, hpq.type.2.2]

/-- The ids are those of parameters with the given names. -/
def Placeholders (a : TypeArena) (gs : List TypeId) (names : List String) : Prop :=
  List.Forall₂ (fun g name => a.get? g = some (.generic name)) gs names

/-- Placeholders stand for their names. -/
theorem Placeholders.unfold_eq (ha : a.Grounded) {gs : List TypeId} {names : List String}
    (h : a.Placeholders gs names) : gs.map a.unfold = names.map .parameter :=
  map_eq_map_of_forall₂ h fun _ _ hg => ha.unfold_eq hg

theorem Placeholders.mono {gs : List TypeId} {names : List String} (h : a.Placeholders gs names)
    (hab : a.Extends b) : b.Placeholders gs names :=
  List.Forall₂.imp (fun _ _ hg => hab.get? hg) h

theorem Placeholders.of_extends {gs : List TypeId} {names : List String}
    (h : b.Placeholders gs names) (hab : a.Extends b) (hgs : ∀ g ∈ gs, a.Holds g) :
    a.Placeholders gs names := by
  change List.Forall₂ _ gs names at h
  induction h with
  | nil => exact .nil
  | cons hg _ ih =>
    rw [hab.get?_eq (hgs _ List.mem_cons_self)] at hg
    exact .cons hg (ih fun g' hg' => hgs g' (List.mem_cons_of_mem _ hg'))

/-! ## Instances that conform -/

/-- The type with these arguments and properties has the declared properties, with the parameters
replaced by the arguments. -/
def ConformsTo (a : TypeArena) (names : List String) (declared : List PropertyTree)
    (arguments : List TypeId) (ps : List Property) : Prop :=
  arguments.length = names.length ∧ a.unfoldProperties ps =
    declared.map (PropertyTree.replace (TypeTree.binding names (arguments.map a.unfold)))

/-- Every interface type of the name conforms to the declaration. -/
def Conforms (a : TypeArena) (name : String) (names : List String)
    (declared : List PropertyTree) : Prop :=
  ∀ id arguments ps, a.get? id = some (.interface name arguments ps) →
    a.ConformsTo names declared arguments ps

variable {name : String} {names : List String} {declared : List PropertyTree}

theorem ConformsTo.mono {arguments : List TypeId} {ps : List Property}
    (h : a.ConformsTo names declared arguments ps) (ha : a.Grounded) (hab : a.Extends b)
    (hheld : ∀ part ∈ (Shape.interface name arguments ps).parts, a.Holds part) :
    b.ConformsTo names declared arguments ps := by
  have harguments : arguments.map b.unfold = arguments.map a.unfold :=
    List.map_congr_left fun x hx => ha.unfold_extends hab (hheld x (List.mem_append_left _ hx))
  refine ⟨h.1, ?_⟩
  rw [harguments, ← h.2]
  refine ha.unfoldProperties_extends hab fun p hp => ?_
  exact hheld p.type (List.mem_append_right _ (List.mem_map_of_mem hp))

/-- Interning keeps instances conforming if the new shape does. -/
theorem Conforms.intern (h : a.Conforms name names declared) (ha : a.Grounded)
    (hparts : ∀ part ∈ s.parts, a.Holds part)
    (hs : ∀ arguments ps, s = .interface name arguments ps →
      a.ConformsTo names declared arguments ps) :
    (TypeArena.intern s a).2.Conforms name names declared := by
  intro id arguments ps hid
  have hab := extends_intern a s
  rcases get?_intern_cases hid with hold | rfl
  · exact (h id arguments ps hold).mono ha hab fun part hp => ha.holds_part hold hp
  · exact (hs arguments ps rfl).mono ha hab hparts

/-- So does rebuilding a shape. -/
theorem Conforms.rebuild (h : a.Conforms name names declared) (hclosed : ClosedUnder names declared)
    (ha : a.Grounded) {σ : String → Option TypeTree} {x : TypeId} {t : Shape}
    (hs : a.get? x = some s) (hst : Shape.Rel (a.Replaced σ) s t) :
    (TypeArena.intern t a).2.Conforms name names declared := by
  refine h.intern ha (fun part hp => ?_) ?_
  · obtain ⟨i, hi, rfl⟩ := List.getElem_of_mem hp
    exact (hst.parts.get (by rw [hst.parts.length_eq]; exact hi) hi).2.1
  · rintro arguments' ps' rfl
    cases hst with
    | @interface _ arguments _ ps _ harguments hps =>
      -- the properties were declared ones over the old arguments; being closed, the declaration
      -- has nothing else for `σ` to replace
      obtain ⟨hlen, htrees⟩ := h x arguments ps hs
      have hmap : arguments'.map a.unfold = (arguments.map a.unfold).map (TypeTree.replace σ) := by
        rw [List.map_map]
        exact (map_eq_map_of_forall₂ harguments fun u v huv => huv.2.2.symm).symm
      refine ⟨harguments.length_eq.symm.trans hlen, ?_⟩
      rw [unfoldProperties_replaced hps, htrees, hmap]
      exact hclosed.replace_replace (by rw [List.length_map, hlen]) σ

theorem Conforms.replace_parameters (h : a.Conforms name names declared)
    (hclosed : ClosedUnder names declared) (ha : a.Grounded) {d : TypeId} {gs : List TypeId}
    {ps : List Property} (hd : a.get? d = some (.interface name gs ps))
    (hgs : a.Placeholders gs parameters) (hdistinct : parameters.Nodup) {trees : List TypeTree}
    (hlen : trees.length = gs.length) :
    (a.unfoldProperties ps).map (PropertyTree.replace (TypeTree.binding parameters trees)) =
      declared.map (PropertyTree.replace (TypeTree.binding names trees)) := by
  obtain ⟨hcount, htrees⟩ := h d gs ps hd
  rw [htrees, hclosed.replace_replace (by rw [List.length_map, hcount]), hgs.unfold_eq ha,
    TypeTree.map_replace_binding hdistinct (by rw [hlen, List.Forall₂.length_eq hgs])]

/-! ## Giving arguments -/

theorem lookup_reverse_of_nodup {α : Type} {l : List (String × α)} (h : (l.map Prod.fst).Nodup)
    (q : String) : l.reverse.lookup q = l.lookup q := by
  induction l with
  | nil => rfl
  | cons entry l ih =>
    obtain ⟨key, value⟩ := entry
    obtain ⟨hnew, hkeys⟩ := List.nodup_cons.1 h
    rw [List.reverse_cons, List.lookup_append, ih hkeys, List.lookup_cons, List.lookup_cons,
      List.lookup_nil]
    by_cases hq : q = key
    · have hnone : l.lookup q = none := by
        rw [List.lookup_eq_none_iff]
        intro entry hentry
        rw [bne_iff_ne]
        intro heq
        exact hnew (List.mem_map.2 ⟨entry, hentry, heq.symm.trans hq⟩)
      rw [hnone, beq_iff_eq.2 hq]
      rfl
    · rw [beq_eq_false_iff_ne.2 hq, Option.or_none]

theorem Placeholders.replacement_eq {gs xs : List TypeId} (h : a.Placeholders gs parameters) :
    a.replacement gs xs = (parameters.zip xs).reverse := by
  unfold replacement
  congr 1
  change List.Forall₂ _ gs parameters at h
  induction h generalizing xs with
  | nil => rfl
  | cons hg _ ih =>
    cases xs with
    | nil => rfl
    | cons x xs =>
      rw [List.zip_cons_cons, List.zip_cons_cons, List.filterMap_cons]
      dsimp only
      rw [hg, ih]

/-- Distinct parameters are bound in order. -/
theorem Placeholders.argumentTrees_eq {gs xs : List TypeId} (h : a.Placeholders gs parameters)
    (hdistinct : parameters.Nodup) (hlen : gs.length = xs.length) :
    a.argumentTrees gs xs = TypeTree.binding parameters (xs.map a.unfold) := by
  have hkeys : (parameters.zip xs).map Prod.fst = parameters := by
    exact List.map_fst_zip (Nat.le_of_eq (by rw [← List.Forall₂.length_eq h, hlen]))
  funext q
  unfold argumentTrees TypeTree.binding
  rw [h.replacement_eq, lookup_reverse_of_nodup (by rw [hkeys]; exact hdistinct), lookup_zip_map]

/-! ## One declaration -/

/-- No interface type has the name. -/
def Undeclared (a : TypeArena) (name : String) : Prop :=
  ∀ id gs ps, a.get? id ≠ some (.interface name gs ps)

/-- The id denotes an interface type of the name over distinct parameters, with these properties. -/
def Declares (a : TypeArena) (d : TypeId) (name : String) (parameters : List String)
    (declared : List PropertyTree) : Prop :=
  ∃ gs ps, a.get? d = some (.interface name gs ps) ∧ a.Placeholders gs parameters ∧
    parameters.Nodup ∧ a.unfoldProperties ps = declared

/-- All interface types of the name are instances of one closed declaration. -/
def Uniform (a : TypeArena) (name : String) (d : TypeId) : Prop :=
  ∃ names declared, a.Declares d name names declared ∧ ClosedUnder names declared ∧
    a.Conforms name names declared

theorem Declares.mono {d : TypeId} (h : a.Declares d name names declared) (ha : a.Grounded)
    (hab : a.Extends b) : b.Declares d name names declared := by
  obtain ⟨gs, ps, hd, hgs, hdistinct, rfl⟩ := h
  refine ⟨gs, ps, hab.get? hd, hgs.mono hab, hdistinct, ?_⟩
  refine ha.unfoldProperties_extends hab fun p hp => ?_
  exact ha.holds_part hd (List.mem_append_right gs (List.mem_map_of_mem hp))

theorem Undeclared.intern (h : a.Undeclared name) (hs : ∀ gs ps, s ≠ .interface name gs ps) :
    (TypeArena.intern s a).2.Undeclared name := by
  intro id gs ps hid
  rcases get?_intern_cases hid with hold | rfl
  · exact h id gs ps hold
  · exact hs gs ps rfl

theorem Uniform.intern {d : TypeId} (h : a.Uniform name d) (ha : a.Grounded)
    (hparts : ∀ part ∈ s.parts, a.Holds part) (hs : ∀ gs ps, s ≠ .interface name gs ps) :
    (TypeArena.intern s a).2.Uniform name d := by
  obtain ⟨names, declared, hdeclares, hclosed, hconforms⟩ := h
  refine ⟨names, declared, hdeclares.mono ha (extends_intern a s), hclosed,
    hconforms.intern ha hparts ?_⟩
  intro gs ps heq
  exact absurd heq (hs gs ps)

section

variable {other : String} {d x : TypeId} {gs xs : List TypeId} {ps : List Property}

theorem Undeclared.instantiate (h : a.Undeclared name) (ha : a.Grounded)
    (hx : a.get? x = some (.interface other gs ps)) (hlen : gs.length = xs.length)
    (hxs : ∀ x ∈ xs, a.Holds x) : (TypeArena.instantiate x xs a).2.Undeclared name := by
  obtain ⟨b, qs, -, hb, -, -, heq⟩ := instantiate_spec (J := fun b => b.Undeclared name)
    (by
      intro b y s t _ hs hst hb
      refine hb.intern ?_
      rintro gs' ps' rfl
      cases hst with
      | interface => exact hb y _ _ hs) ha h hx hlen hxs
  rw [heq]
  refine hb.intern fun gs' ps' hshape => ?_
  cases hshape
  exact h x gs ps hx

/-- Instantiation keeps an interface uniform. -/
theorem Uniform.instantiate (h : a.Uniform name d) (ha : a.Grounded)
    (hx : a.get? x = some (.interface other gs ps)) (hlen : gs.length = xs.length)
    (hxs : ∀ x ∈ xs, a.Holds x)
    (hgs : other = name → ∃ parameters, parameters.Nodup ∧ a.Placeholders gs parameters) :
    (TypeArena.instantiate x xs a).2.Uniform name d := by
  obtain ⟨names, declared, hdeclares, hclosed, hconforms⟩ := h
  obtain ⟨b, qs, hb, hbconforms, hab, hqs, heq⟩ :=
    instantiate_spec (J := fun b => b.Conforms name names declared)
      (fun b y s t hb hs hst hconforms => hconforms.rebuild hclosed hb hs hst)
      ha hconforms hx hlen hxs
  rw [heq]
  refine ⟨names, declared, hdeclares.mono ha (hab.trans (extends_intern b _)), hclosed,
    hbconforms.intern hb ?_ ?_⟩
  · exact holds_instance_parts (fun x hx => hab.holds (hxs x hx)) hqs
  · intro arguments qs' hshape
    cases hshape
    -- the type itself is an instance of the declaration, so its arguments stand in for parameters
    obtain ⟨parameters, hdistinct, hparameters⟩ := hgs rfl
    have hcount := (hconforms x gs ps hx).1
    have hxs' : xs.map b.unfold = xs.map a.unfold :=
      List.map_congr_left fun y hy => ha.unfold_extends hab (hxs y hy)
    refine ⟨by rw [← hlen, hcount], ?_⟩
    calc b.unfoldProperties qs
        = (b.unfoldProperties ps).map (PropertyTree.replace (a.argumentTrees gs xs)) :=
          unfoldProperties_replaced hqs
      _ = (a.unfoldProperties ps).map (PropertyTree.replace (a.argumentTrees gs xs)) := by
          rw [ha.unfoldProperties_extends hab fun p hp =>
            ha.holds_part hx (List.mem_append_right gs (List.mem_map_of_mem hp))]
      _ = declared.map (PropertyTree.replace (TypeTree.binding names (xs.map b.unfold))) := by
          rw [hparameters.argumentTrees_eq hdistinct hlen, hxs']
          exact hconforms.replace_parameters hclosed ha hx hparameters hdistinct
            (by rw [List.length_map, hlen])

end

/-- A declaration makes its interface uniform. -/
theorem Undeclared.declare (h : a.Undeclared name) (ha : a.Grounded) {gs : List TypeId}
    {ps : List Property} (hparts : ∀ part ∈ (Shape.interface name gs ps).parts, a.Holds part)
    (hgs : a.Placeholders gs names) (hdistinct : names.Nodup)
    (hclosed : ClosedUnder names (a.unfoldProperties ps)) :
    (TypeArena.intern (.interface name gs ps) a).2.Uniform name
      (TypeArena.intern (.interface name gs ps) a).1 := by
  have hext := extends_intern a (.interface name gs ps)
  have hnone : a.Conforms name names (a.unfoldProperties ps) :=
    fun id arguments qs hid => absurd hid (h id arguments qs)
  refine ⟨names, a.unfoldProperties ps, ?_, hclosed, hnone.intern ha hparts ?_⟩
  · refine ⟨gs, ps, get?_intern a _, hgs.mono hext, hdistinct, ?_⟩
    exact ha.unfoldProperties_extends hext fun p hp =>
      hparts p.type (List.mem_append_right gs (List.mem_map_of_mem hp))
  · intro arguments qs hshape
    cases hshape
    refine ⟨List.Forall₂.length_eq hgs, ?_⟩
    rw [hgs.unfold_eq ha, hclosed.replace_self]

end TypeArena

/-! ## Conditions that can be checked -/

/-- The names of the parameters among the ids. -/
def TypeArena.parameterNames (a : TypeArena) (gs : List TypeId) : List String :=
  gs.filterMap fun g =>
    match a.get? g with
    | some (.generic name) => some name
    | _ => none

theorem TypeArena.Placeholders.parameterNames_eq {a : TypeArena} {gs : List TypeId}
    {names : List String} (h : a.Placeholders gs names) : a.parameterNames gs = names := by
  unfold parameterNames
  change List.Forall₂ _ gs names at h
  induction h with
  | nil => rfl
  | cons hg _ ih =>
    rw [List.filterMap_cons, hg, ih]

/-- No interface type of the name, or one whose arguments are distinct parameters. -/
def Shape.Uninstantiated (a : TypeArena) (name : String) : Shape → Prop
  | .interface other gs _ =>
    other = name → ∃ parameters : List String, parameters.Nodup ∧ a.Placeholders gs parameters
  | _ => True

/-- No interface type of the name, or one whose properties mention no parameters but those that its
arguments mention. -/
def Shape.Closed (a : TypeArena) (name : String) : Shape → Prop
  | .interface other gs ps =>
    other = name → ∀ p ∈ ps, ∀ q ∈ (a.unfold p.type).parameters,
      ∃ g ∈ gs, q ∈ (a.unfold g).parameters
  | _ => True

instance (a : TypeArena) (gs : List TypeId) :
    Decidable (∃ parameters : List String, parameters.Nodup ∧ a.Placeholders gs parameters) :=
  decidable_of_iff ((a.parameterNames gs).Nodup ∧
      List.Forall₂ (fun g name => a.get? g = some (.generic name)) gs (a.parameterNames gs))
    ⟨fun h => ⟨_, h⟩, fun ⟨names, hdistinct, hgs⟩ => by
      rw [hgs.parameterNames_eq]
      exact ⟨hdistinct, hgs⟩⟩

instance (a : TypeArena) (name : String) : DecidablePred (Shape.Uninstantiated a name)
  | .interface .. => inferInstanceAs (Decidable (_ → _))
  | .primitive _ | .generic _ | .array _ | .vararg _ | .function .. | .table _ => .isTrue trivial

instance (a : TypeArena) (name : String) : DecidablePred (Shape.Closed a name)
  | .interface .. => inferInstanceAs (Decidable (_ → _))
  | .primitive _ | .generic _ | .array _ | .vararg _ | .function .. | .table _ => .isTrue trivial

end TypedLua
