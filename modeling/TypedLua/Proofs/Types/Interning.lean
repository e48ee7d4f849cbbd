import TypedLua.Proofs.Types.Formation

/-!
# Types.Interning

Interning as hash-consing.  Types are added by calls: one forms a type from parts that exist, one
gives arguments to an interface.  Whatever calls were made on an arena that held the primitives
alone, its types are made of older ones, look-up by shape and look-up by id undo each other, and an
id stands for one structure that no other id has.  A call leaves every type that was there where it
was.

Since types are made of older ones, displaying, comparing and rebuilding a type come to an end: the
number of layers that is allowed for plays no part once it exceeds the id.

Main statement: `TypeArena.reached_hashConsed`.
-/

namespace TypedLua

/-! ## Layers and parts -/

theorem properties_eq_of_types {ps qs : List Property}
    (hblank : ps.map (fun p => ({ p with type := default } : Property)) =
      qs.map fun p => { p with type := default })
    (htypes : ps.map Property.type = qs.map Property.type) : ps = qs := by
  induction ps generalizing qs with
  | nil => simpa using hblank.symm
  | cons p ps ih =>
    cases qs with
    | nil => simp at hblank
    | cons q qs =>
      obtain ⟨pname, ptype, poptional⟩ := p
      obtain ⟨qname, qtype, qoptional⟩ := q
      simp only [List.map_cons, List.cons.injEq, Property.mk.injEq] at hblank htypes
      obtain ⟨⟨rfl, -, rfl⟩, hblank⟩ := hblank
      obtain ⟨rfl, htypes⟩ := htypes
      rw [ih hblank htypes]

theorem Shape.eq_of_blank_eq {s t : Shape} (hblank : s.blank = t.blank) (hparts : s.parts = t.parts) :
    s = t := by
  -- the layer tells the form, and in how many places each list of parts is used up
  cases s <;> cases t <;> simp only [Shape.blank, Shape.parts, reduceCtorEq, Shape.primitive.injEq,
    Shape.generic.injEq, Shape.function.injEq, Shape.table.injEq, Shape.interface.injEq,
    List.cons.injEq, and_true] at hblank hparts
  · rw [hblank]
  · rw [hblank]
  · rw [hparts]
  · rw [hparts]
  · have hlen := congrArg List.length hblank.1
    simp only [List.length_map] at hlen
    obtain ⟨rfl, rfl⟩ := List.append_inj hparts hlen
    rfl
  · rw [properties_eq_of_types hblank hparts]
  · obtain ⟨rfl, hgenerics, hproperties⟩ := hblank
    have hlen := congrArg List.length hgenerics
    simp only [List.length_map] at hlen
    obtain ⟨rfl, htypes⟩ := List.append_inj hparts hlen
    rw [properties_eq_of_types hproperties htypes]

theorem eq_of_map_eq_map {α β : Type} {f : α → β} :
    ∀ {xs ys : List α}, xs.map f = ys.map f → (∀ x ∈ xs, ∀ y ∈ ys, f x = f y → x = y) → xs = ys
  | [], [], _, _ => rfl
  | x :: xs, y :: ys, h, hinj => by
    simp only [List.map_cons, List.cons.injEq] at h
    have htail : xs = ys := eq_of_map_eq_map h.2 fun x' hx y' hy =>
      hinj x' (List.mem_cons_of_mem x hx) y' (List.mem_cons_of_mem y hy)
    rw [hinj x List.mem_cons_self y List.mem_cons_self h.1, htail]

/-- A tree determines its layer and its parts. -/
theorem TypeTree.ofShape_inj {f g : TypeId → TypeTree} {s t : Shape}
    (h : TypeTree.ofShape f s = TypeTree.ofShape g t) :
    s.blank = t.blank ∧ s.parts.map f = t.parts.map g := by
  cases s <;> cases t <;> simp_all [TypeTree.ofShape, Shape.blank, Shape.parts]

/-! ## Actions that do the same -/

section

variable {α β : Type} {I : TypeArena → Prop}

theorem TypeArena.mapM_congr {f g : α → StateM TypeArena β} :
    ∀ (xs : List α), (∀ x ∈ xs, ∀ b, I b → f x b = g x b ∧ I (f x b).2) →
      ∀ b, I b → xs.mapM f b = xs.mapM g b ∧ I (xs.mapM f b).2
  | [], _, b, hb => ⟨rfl, hb⟩
  | x :: xs, h, b, hb => by
    obtain ⟨hsame, hI⟩ := h x List.mem_cons_self b hb
    obtain ⟨hrest, hI'⟩ :=
      TypeArena.mapM_congr xs (fun y hy => h y (List.mem_cons_of_mem x hy)) (f x b).2 hI
    rw [TypeArena.mapM_cons_apply, TypeArena.mapM_cons_apply, ← hsame, ← hrest]
    exact ⟨rfl, hI'⟩

theorem Shape.mapM_congr {f g : TypeId → StateM TypeArena TypeId} (s : Shape)
    (h : ∀ x ∈ s.parts, ∀ b, I b → f x b = g x b ∧ I (f x b).2) (b : TypeArena) (hb : I b) :
    s.mapM f b = s.mapM g b := by
  have hbind : ∀ {γ δ : Type} (x : StateM TypeArena γ) (k : γ → StateM TypeArena δ) (c : TypeArena),
      (x >>= k) c = k (x c).1 (x c).2 := fun _ _ _ => rfl
  have hprops : ∀ (ps : List Property), (∀ p ∈ ps, p.type ∈ s.parts) → ∀ c, I c →
      ps.mapM (fun p => p.mapM f) c = ps.mapM (fun p => p.mapM g) c := by
    intro ps hps c hc
    refine (TypeArena.mapM_congr ps (fun p hp d hd => ?_) c hc).1
    obtain ⟨hsame, hI⟩ := h p.type (hps p hp) d hd
    refine ⟨?_, hI⟩
    rw [Property.mapM, Property.mapM, hbind, hbind, hsame]
  cases s with
  | primitive p => rfl
  | generic name => rfl
  | array e | vararg e =>
    rw [Shape.mapM, Shape.mapM, hbind, hbind, (h e List.mem_cons_self b hb).1]
  | function xs us =>
    obtain ⟨hxs, hI⟩ :=
      TypeArena.mapM_congr xs (fun x hx => h x (List.mem_append_left us hx)) b hb
    obtain ⟨hus, -⟩ :=
      TypeArena.mapM_congr us (fun u hu => h u (List.mem_append_right xs hu)) _ hI
    rw [Shape.mapM, Shape.mapM, hbind, hbind, hbind, hbind, ← hxs, ← hus]
  | table ps =>
    have hps := hprops ps (fun p hp => List.mem_map_of_mem hp) b hb
    rw [Shape.mapM, Shape.mapM, hbind, hbind, hps]
  | interface name gs ps =>
    obtain ⟨hgs, hI⟩ :=
      TypeArena.mapM_congr gs (fun x hx => h x (List.mem_append_left _ hx)) b hb
    have hps := hprops ps (fun p hp => List.mem_append_right _ (List.mem_map_of_mem hp)) _ hI
    rw [Shape.mapM, Shape.mapM, hbind, hbind, hbind, hbind, ← hgs, ← hps]

end

namespace TypeArena

variable {a b : TypeArena}

/-! ## One id for one structure -/

/-- Ids that stand for the same tree are equal. -/
theorem Grounded.eq_of_unfold_eq (ha : a.Grounded) :
    ∀ (n : Nat) (x y : TypeId), x.index < n → a.Holds x → a.Holds y → a.unfold x = a.unfold y →
      x = y := by
  intro n
  induction n with
  | zero => intro x y hn; omega
  | succ n ih =>
    intro x y hn hx hy h
    obtain ⟨s, hs⟩ := hx.get?
    obtain ⟨t, ht⟩ := hy.get?
    rw [ha.unfold_eq hs, ha.unfold_eq ht] at h
    obtain ⟨hblank, htrees⟩ := TypeTree.ofShape_inj h
    -- the parts have one structure each, and those of `x` are older
    have hparts : s.parts = t.parts := by
      apply eq_of_map_eq_map htrees
      intro u hu v hv huv
      have hlt := ha.older hs u hu
      exact ih u v (by omega) (ha.holds_part hs hu) (ha.holds_part ht hv) huv
    rw [Shape.eq_of_blank_eq hblank hparts] at hs
    exact ha.eq_of_get? hs ht

theorem Grounded.unfold_eq_iff (ha : a.Grounded) {x y : TypeId} (hx : a.Holds x) (hy : a.Holds y) :
    a.unfold x = a.unfold y ↔ x = y := by
  constructor
  · intro h
    exact ha.eq_of_unfold_eq (x.index + 1) x y (by omega) hx hy h
  · intro h
    rw [h]

/-- Looking up a shape is the inverse of looking up an id. -/
theorem Canonical.idOf?_eq_some_iff (ha : a.Canonical) {s : Shape} {id : TypeId} :
    a.idOf? s = some id ↔ a.get? id = some s := by
  constructor
  · exact idOf?_eq_some
  · intro h
    cases hfound : a.idOf? s with
    | none =>
      -- a shape that the arena holds is found
      have hnone : a.shapes.idxOf? s = none := by simpa [idOf?] using hfound
      exact absurd (List.mem_of_getElem? h) (List.idxOf?_eq_none_iff.1 hnone)
    | some other => rw [ha.eq_of_get? (idOf?_eq_some hfound) h]

/-! ## Enough layers -/

theorem Grounded.displayWithin_eq (ha : a.Grounded) {x : TypeId} (hx : a.Holds x) {n : Nat}
    (hn : x.index < n) : a.displayWithin n x = a.display x := by
  have hsize : x.index < a.size := hx
  exact (ha.alike (.refl a)).embeds.displayWithin_eq ha n _ x x ⟨rfl, hx⟩ hn (by omega)

theorem Grounded.compatibleWithin_eq (ha : a.Grounded) {x y : TypeId} (hx : a.Holds x)
    (hy : a.Holds y) {n : Nat} (hn : x.index < n) : a.compatibleWithin n x y = a.compatible x y := by
  have hsize : x.index < a.size := hx
  have hsquare : a.size ≤ a.size * a.size := Nat.le_mul_self _
  have halike := ha.alike (.refl a)
  exact halike.embeds.compatibleWithin_eq ha halike.biUnique n _ x x y y ⟨rfl, hx⟩ ⟨rfl, hy⟩ hn
    (by omega)

theorem mem_of_lookup {r : Replacement} {name : String} {id : TypeId}
    (h : r.lookup name = some id) : (name, id) ∈ r := by
  obtain ⟨before, after, rfl, -⟩ := List.lookup_eq_some_iff.1 h
  simp

/-- Any fuel beyond the id is enough. -/
theorem Grounded.substituteWithin_eq {r : Replacement} :
    ∀ (n m : Nat) (x : TypeId) (a : TypeArena), a.Grounded → (∀ entry ∈ r, a.Holds entry.2) →
      a.Holds x → x.index < n → x.index < m →
      substituteWithin r n x a = substituteWithin r m x a := by
  intro n
  induction n with
  | zero => intro m x a _ _ _ hn; omega
  | succ n ih =>
    intro m x a ha hr hx hn hm
    obtain ⟨m, rfl⟩ : ∃ k, m = k + 1 := ⟨m - 1, by omega⟩
    obtain ⟨s, hs⟩ := hx.get?
    -- the parts are rebuilt one after the other, in arenas that extend `a`
    have hlayer : s.mapM (substituteWithin r n) a = s.mapM (substituteWithin r m) a := by
      refine Shape.mapM_congr (I := fun b => b.Grounded ∧ a.Extends b) s ?_ a ⟨ha, .refl a⟩
      rintro u hu b ⟨hb, hab⟩
      have hlt := ha.older hs u hu
      have hub : b.Holds u := hab.holds (ha.holds_part hs hu)
      have hrb : ∀ entry ∈ r, b.Holds entry.2 := fun entry he => hab.holds (hr entry he)
      have hreplaces : b.Replaces r fun name => (r.lookup name).map b.unfold :=
        ⟨fun hname => hrb _ (mem_of_lookup hname), fun _ => rfl⟩
      obtain ⟨⟨hgrounded, -⟩, hext, -⟩ := substituteWithin_spec (J := fun _ => True)
        (fun _ _ _ _ _ _ _ _ => .intro) n u b hb hreplaces .intro hub (by omega)
      exact ⟨ih m u b hb hrb hub (by omega) (by omega), hgrounded, hab.trans hext⟩
    rw [substituteWithin_succ, substituteWithin_succ, hs]
    cases s with
    | primitive p => rfl
    | generic name => rfl
    | _ => dsimp only; rw [hlayer]

/-! ## Calls -/

/-- What may be asked of an arena. -/
inductive Call where
  /-- Form a type from its parts. -/
  | form (s : Shape)
  /-- Give arguments to an interface. -/
  | instantiate (declaration : TypeId) (arguments : List TypeId)

/-- The ids that a call is made with. -/
def Call.ids : Call → List TypeId
  | form s => s.parts
  | instantiate declaration arguments => declaration :: arguments

/-- The arena after a call. -/
def Call.run : Call → TypeArena → TypeArena
  | form s, a => (intern s a).2
  | instantiate declaration arguments, a => (TypeArena.instantiate declaration arguments a).2

instance (a : TypeArena) (id : TypeId) : Decidable (a.Holds id) :=
  inferInstanceAs (Decidable (id.index < a.size))

/-- The arenas that calls lead to, if each is made with ids of types that exist. -/
inductive Reached : TypeArena → Prop
  | new : Reached primitives
  | call {a : TypeArena} (c : Call) : Reached a → (∀ id ∈ c.ids, a.Holds id) → Reached (c.run a)

theorem instantiate_cases (a : TypeArena) (d : TypeId) (xs : List TypeId) :
    TypeArena.instantiate d xs a = (none, a) ∨ ∃ name gs ps,
      a.get? d = some (.interface name gs ps) ∧ gs.length = xs.length := by
  have hget : ∀ g : TypeArena → StateM TypeArena (Option TypeId), (get >>= g) a = g a a :=
    fun _ => rfl
  rw [TypeArena.instantiate, hget]
  cases hd : a.get? d with
  | none => exact .inl rfl
  | some s =>
    cases s with
    | interface name gs ps =>
      by_cases hlen : gs.length = xs.length
      · exact .inr ⟨name, gs, ps, rfl, hlen⟩
      · dsimp only
        rw [if_neg hlen]
        exact .inl rfl
    | _ => exact .inl rfl

/-- Every call keeps an arena grounded and extends it. -/
theorem Call.run_spec (ha : a.Grounded) (c : Call) (hc : ∀ id ∈ c.ids, a.Holds id) :
    (c.run a).Grounded ∧ a.Extends (c.run a) := by
  cases c with
  | form s => exact ⟨ha.intern hc, extends_intern a s⟩
  | instantiate d xs =>
    have hxs : ∀ x ∈ xs, a.Holds x := fun x hx => hc x (List.mem_cons_of_mem d hx)
    show (TypeArena.instantiate d xs a).2.Grounded ∧ a.Extends (TypeArena.instantiate d xs a).2
    rcases instantiate_cases a d xs with hsame | ⟨name, gs, ps, hd, hlen⟩
    · rw [hsame]
      exact ⟨ha, .refl a⟩
    · exact ⟨grounded_instantiate ha hd hlen hxs, extends_instantiate ha hd hlen hxs⟩

/-- An arena that is reached is grounded. -/
theorem Reached.grounded (h : Reached a) : a.Grounded := by
  induction h with
  | new => exact primitives_grounded
  | call c _ hc ih => exact (c.run_spec ih hc).1

/-! ## Hash-consing -/

/-- An arena that shares structure exactly. -/
structure HashConsed (a : TypeArena) : Prop where
  /-- The parts of a type are older than the type. -/
  descending {id : TypeId} {s : Shape} :
    a.get? id = some s → ∀ part ∈ s.parts, part.index < id.index
  /-- Look-up by shape and look-up by id undo each other. -/
  inverse (s : Shape) (id : TypeId) : a.idOf? s = some id ↔ a.get? id = some s
  /-- An id stands for a structure that no other id stands for. -/
  sharing {x y : TypeId} : a.Holds x → a.Holds y → (x = y ↔ a.unfold x = a.unfold y)
  /-- Displaying a type takes no more layers than its id tells. -/
  displayed {x : TypeId} {n : Nat} : a.Holds x → x.index < n → a.displayWithin n x = a.display x
  compared {x y : TypeId} {n : Nat} : a.Holds x → a.Holds y → x.index < n →
    a.compatibleWithin n x y = a.compatible x y
  rebuilt {r : Replacement} {x : TypeId} {n : Nat} : (∀ entry ∈ r, a.Holds entry.2) →
    a.Holds x → x.index < n → substituteWithin r n x a = substitute r x a

theorem Grounded.hashConsed (ha : a.Grounded) : a.HashConsed where
  descending hs := ha.older hs
  inverse s id := ha.toCanonical.idOf?_eq_some_iff
  sharing hx hy := (ha.unfold_eq_iff hx hy).symm
  displayed hx hn := ha.displayWithin_eq hx hn
  compared hx hy hn := ha.compatibleWithin_eq hx hy hn
  rebuilt {r x n} hr hx hn := by
    have hsize : x.index < a.size := hx
    have hbound := a.size_le_idBound (x :: r.map Prod.snd)
    exact substituteWithin_eq n (a.idBound (x :: r.map Prod.snd) + 1) x a ha hr hx hn (by omega)

/-- **Interning is hash-consing.**  Every arena that calls lead to shares structure exactly.  A
further call leaves every type at its id, and forming a type gives the one id that it then has. -/
theorem reached_hashConsed (h : Reached a) :
    a.HashConsed ∧ ∀ c : Call, (∀ id ∈ c.ids, a.Holds id) →
      (∀ id s, a.get? id = some s → (c.run a).get? id = some s) ∧
      ∀ s, c = .form s → ∀ id, (c.run a).get? id = some s ↔ id = (intern s a).1 := by
  refine ⟨h.grounded.hashConsed, ?_⟩
  intro c hc
  obtain ⟨hgrounded, hext⟩ := c.run_spec h.grounded hc
  refine ⟨fun id s hs => hext.get? hs, ?_⟩
  rintro s rfl id
  have hnew : ((Call.form s).run a).get? (intern s a).1 = some s := get?_intern a s
  constructor
  · intro hid
    exact hgrounded.eq_of_get? hid hnew
  · intro hid
    rw [hid]
    exact hnew

/-- An interface is declared, gets an argument, and may get its own instance for an argument. -/
theorem reached_hashConsed_box :
    let box : Shape := .interface "Box" [⟨7⟩] [⟨"v", ⟨7⟩, false⟩]
    let a := (Call.instantiate ⟨8⟩ [⟨1⟩]).run
      ((Call.form box).run ((Call.form (.generic "T")).run primitives))
    a.get? ⟨9⟩ = some (.interface "Box" [⟨1⟩] [⟨"v", ⟨1⟩, false⟩]) ∧ a.HashConsed ∧
      ∀ id s, a.get? id = some s → ((Call.instantiate ⟨8⟩ [⟨9⟩]).run a).get? id = some s := by
  intro box a
  have h : Reached a := .call _ (.call _ (.call _ .new (by decide)) (by decide)) (by decide)
  obtain ⟨hconsed, hcalls⟩ := reached_hashConsed h
  exact ⟨by decide, hconsed, (hcalls (.instantiate ⟨8⟩ [⟨9⟩]) (by decide)).1⟩

end TypeArena

end TypedLua
