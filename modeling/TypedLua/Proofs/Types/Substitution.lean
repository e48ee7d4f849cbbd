import TypedLua.Proofs.Types.Unfolding
import TypedLua.Types.Substitution

/-!
# Types.Substitution

Replacing parameters in an arena is replacing them in the structure of a type.  The proof goes with
the recursion, layer by layer: rebuilding the parts of a shape gives a shape over related parts, and
interning it gives a type of the wanted structure.  Along the way the arena only grows, stays
grounded, and keeps whatever interning a rebuilt shape keeps.

Main statements: `substituteWithin_spec` and `instantiate_spec`.
-/

namespace TypedLua

/-! ## Actions on arenas, part by part -/

namespace TypeArena

variable {α β : Type}

theorem mapM_cons_apply (f : α → StateM TypeArena β) (x : α) (xs : List α) (a : TypeArena) :
    (x :: xs).mapM f a =
      ((f x a).1 :: (xs.mapM f (f x a).2).1, (xs.mapM f (f x a).2).2) := by
  rw [List.mapM_cons]
  rfl

theorem mapM_spec {f : α → StateM TypeArena β} {I : TypeArena → Prop}
    {R : TypeArena → α → β → Prop}
    (mono : ∀ b c x y, I b → b.Extends c → R b x y → R c x y) :
    ∀ (xs : List α),
      (∀ x ∈ xs, ∀ a, I a → I (f x a).2 ∧ a.Extends (f x a).2 ∧ R (f x a).2 x (f x a).1) →
      ∀ a, I a → I (xs.mapM f a).2 ∧ a.Extends (xs.mapM f a).2 ∧
        List.Forall₂ (R (xs.mapM f a).2) xs (xs.mapM f a).1
  | [], _, a, ha => ⟨ha, .refl a, .nil⟩
  | x :: xs, h, a, ha => by
    obtain ⟨hI, hext, hR⟩ := h x List.mem_cons_self a ha
    obtain ⟨hI', hext', hR'⟩ :=
      mapM_spec mono xs (fun y hy => h y (List.mem_cons_of_mem x hy)) (f x a).2 hI
    rw [mapM_cons_apply]
    exact ⟨hI', hext.trans hext', .cons (mono _ _ _ _ hI hext' hR) hR'⟩

end TypeArena

open TypeArena

/-- What holds of each part holds of the rebuilt layer. -/
theorem Shape.mapM_spec {f : TypeId → StateM TypeArena TypeId} {I : TypeArena → Prop}
    {R : TypeArena → TypeId → TypeId → Prop}
    (mono : ∀ b c x y, I b → b.Extends c → R b x y → R c x y) (s : Shape)
    (h : ∀ x ∈ s.parts, ∀ a, I a →
      I (f x a).2 ∧ a.Extends (f x a).2 ∧ R (f x a).2 x (f x a).1) (a : TypeArena) (ha : I a) :
    I (s.mapM f a).2 ∧ a.Extends (s.mapM f a).2 ∧
      Shape.Rel (R (s.mapM f a).2) s (s.mapM f a).1 := by
  have hprops : ∀ (ps : List Property), (∀ p ∈ ps, p.type ∈ s.parts) → ∀ b, I b →
      I (ps.mapM (fun p => p.mapM f) b).2 ∧ b.Extends (ps.mapM (fun p => p.mapM f) b).2 ∧
        List.Forall₂ (Property.Rel (R (ps.mapM (fun p => p.mapM f) b).2)) ps
          (ps.mapM (fun p => p.mapM f) b).1 := by
    intro ps hps
    refine TypeArena.mapM_spec (R := fun c p q => Property.Rel (R c) p q) ?_ ps ?_
    · intro b c p q hb hbc hpq
      exact ⟨hpq.name, mono b c _ _ hb hbc hpq.type, hpq.optional⟩
    · intro p hp b hb
      obtain ⟨hI, hext, hR⟩ := h p.type (hps p hp) b hb
      exact ⟨hI, hext, rfl, hR, rfl⟩
  cases s with
  | primitive p => exact ⟨ha, .refl a, .primitive p⟩
  | generic name => exact ⟨ha, .refl a, .generic name⟩
  | array e =>
    obtain ⟨hI, hext, hR⟩ := h e List.mem_cons_self a ha
    exact ⟨hI, hext, .array hR⟩
  | vararg e =>
    obtain ⟨hI, hext, hR⟩ := h e List.mem_cons_self a ha
    exact ⟨hI, hext, .vararg hR⟩
  | function xs us =>
    obtain ⟨hI, hext, hR⟩ :=
      TypeArena.mapM_spec mono xs (fun x hx => h x (List.mem_append_left us hx)) a ha
    -- the returns are rebuilt after the arguments, whose facts survive
    obtain ⟨hI', hext', hR'⟩ :=
      TypeArena.mapM_spec mono us (fun u hu => h u (List.mem_append_right xs hu)) _ hI
    exact ⟨hI', hext.trans hext', .function (hR.imp fun x y => mono _ _ x y hI hext') hR'⟩
  | table ps =>
    obtain ⟨hI, hext, hR⟩ := hprops ps (fun p hp => List.mem_map_of_mem hp) a ha
    exact ⟨hI, hext, .table hR⟩
  | interface name gs ps =>
    obtain ⟨hI, hext, hR⟩ :=
      TypeArena.mapM_spec mono gs (fun g hg => h g (List.mem_append_left _ hg)) a ha
    obtain ⟨hI', hext', hR'⟩ :=
      hprops ps (fun p hp => List.mem_append_right _ (List.mem_map_of_mem hp)) _ hI
    exact ⟨hI', hext.trans hext', .interface name (hR.imp fun x y => mono _ _ x y hI hext') hR'⟩

/-! ## Structure -/

variable {x : TypeId} {s : Shape} {gs xs : List TypeId} {name : String} {ps : List Property}

namespace TypeArena

/-- A replacement stands for a replacement of trees. -/
structure Replaces (a : TypeArena) (r : Replacement) (σ : String → Option TypeTree) : Prop where
  /-- Parameters are replaced by types of the arena. -/
  holds {name : String} {id : TypeId} : r.lookup name = some id → a.Holds id
  /-- Each parameter is replaced by the structure of its type. -/
  tree (name : String) : σ name = (r.lookup name).map a.unfold

/-- The type `y` is `x` with parameters replaced. -/
def Replaced (σ : String → Option TypeTree) (a : TypeArena) (x y : TypeId) : Prop :=
  a.Holds x ∧ a.Holds y ∧ a.unfold y = (a.unfold x).replace σ

variable {a b : TypeArena} {r : Replacement} {σ : String → Option TypeTree}

theorem Replaces.mono (h : a.Replaces r σ) (ha : a.Grounded) (hab : a.Extends b) :
    b.Replaces r σ := by
  refine ⟨fun hname => hab.holds (h.holds hname), ?_⟩
  intro name
  rw [h.tree name]
  cases hname : r.lookup name with
  | none => rfl
  | some id => rw [Option.map_some, Option.map_some, ha.unfold_extends hab (h.holds hname)]

/-- What is replaced stays so when the arena grows. -/
theorem Replaced.mono {y : TypeId} (h : a.Replaced σ x y) (ha : a.Grounded) (hab : a.Extends b) :
    b.Replaced σ x y := by
  obtain ⟨hx, hy, htree⟩ := h
  refine ⟨hab.holds hx, hab.holds hy, ?_⟩
  rw [ha.unfold_extends hab hx, ha.unfold_extends hab hy, htree]

theorem ofShape_replace {f g : TypeId → TypeTree} {t : Shape}
    (h : Shape.Rel (fun x y => g y = (f x).replace σ) s t) (hs : ∀ name, s ≠ .generic name) :
    TypeTree.ofShape g t = (TypeTree.ofShape f s).replace σ := by
  have hnode : TypeTree.node t.blank (t.parts.map g) =
      (TypeTree.node s.blank (s.parts.map f)).replace σ := by
    rw [TypeTree.replace_node, h.blank_eq, List.map_map]
    congr 1
    exact (map_eq_map_of_forall₂ h.parts fun x y hxy => hxy.symm).symm
  cases h with
  | generic name => exact absurd rfl (hs name)
  | _ => exact hnode

/-- A rebuilt layer stands for the tree with replacements. -/
theorem Replaced.intern {t : Shape} (ha : a.Grounded) (hs : a.get? x = some s)
    (hst : Shape.Rel (a.Replaced σ) s t) (hgen : ∀ name, s ≠ .generic name) :
    (TypeArena.intern t a).2.Grounded ∧
      (TypeArena.intern t a).2.Replaced σ x (TypeArena.intern t a).1 := by
  have hparts : ∀ part ∈ t.parts, a.Holds part := by
    intro part hp
    obtain ⟨i, hi, rfl⟩ := List.getElem_of_mem hp
    exact (hst.parts.get (by rw [hst.parts.length_eq]; exact hi) hi).2.1
  have hb : (TypeArena.intern t a).2.Grounded := ha.intern hparts
  have hext := extends_intern a t
  refine ⟨hb, hext.holds (holds_of_get? hs), holds_intern a t, ?_⟩
  rw [hb.unfold_eq (get?_intern a t), hb.unfold_eq (hext.get? hs)]
  refine ofShape_replace (hst.mono fun u v huv => ?_) hgen
  exact (huv.mono ha hext).2.2

theorem substituteWithin_succ (r : Replacement) (n : Nat) (x : TypeId) (a : TypeArena) :
    substituteWithin r (n + 1) x a =
      match a.get? x with
      | none => (x, a)
      | some (.primitive _) => (x, a)
      | some (.generic name) => ((r.lookup name).getD x, a)
      | some s =>
        intern (s.mapM (substituteWithin r n) a).1 (s.mapM (substituteWithin r n) a).2 := by
  rw [substituteWithin,
    show ∀ f : TypeArena → StateM TypeArena TypeId, (get >>= f) a = f a a from fun _ => rfl]
  cases a.get? x with
  | none => rfl
  | some s => cases s <;> rfl

theorem substituteWithin_layer {n : Nat} (hs : a.get? x = some s) (hprim : ∀ p, s ≠ .primitive p)
    (hgen : ∀ name, s ≠ .generic name) :
    substituteWithin r (n + 1) x a =
      intern (s.mapM (substituteWithin r n) a).1 (s.mapM (substituteWithin r n) a).2 := by
  rw [substituteWithin_succ, hs]
  cases s with
  | primitive p => exact absurd rfl (hprim p)
  | generic name => exact absurd rfl (hgen name)
  | _ => rfl

/-- Substitution replaces, and keeps what interning rebuilt layers keeps. -/
theorem substituteWithin_spec {J : TypeArena → Prop}
    (hJ : ∀ b x s t, b.Grounded → b.get? x = some s → Shape.Rel (b.Replaced σ) s t → J b →
      J (intern t b).2) :
    ∀ (n : Nat) (x : TypeId) (a : TypeArena), a.Grounded → a.Replaces r σ → J a → a.Holds x →
      x.index < n →
      ((substituteWithin r n x a).2.Grounded ∧ J (substituteWithin r n x a).2) ∧
        a.Extends (substituteWithin r n x a).2 ∧
        (substituteWithin r n x a).2.Replaced σ x (substituteWithin r n x a).1 := by
  intro n
  induction n with
  | zero => intro x a _ _ _ _ hn; omega
  | succ n ih =>
    intro x a ha hr hJa hx hn
    obtain ⟨s, hs⟩ := hx.get?
    by_cases hprim : ∃ p, s = .primitive p
    · obtain ⟨p, rfl⟩ := hprim
      rw [substituteWithin_succ, hs]
      refine ⟨⟨ha, hJa⟩, .refl a, hx, hx, ?_⟩
      rw [ha.unfold_eq hs]
      rfl
    · by_cases hgen : ∃ name, s = .generic name
      · obtain ⟨name, rfl⟩ := hgen
        rw [substituteWithin_succ, hs]
        show (a.Grounded ∧ J a) ∧ a.Extends a ∧ a.Replaced σ x ((r.lookup name).getD x)
        have htree : a.unfold x = .parameter name := ha.unfold_eq hs
        refine ⟨⟨ha, hJa⟩, .refl a, hx, ?_⟩
        rw [htree, TypeTree.replace, hr.tree name]
        cases hname : r.lookup name with
        | none => exact ⟨hx, htree⟩
        | some id => exact ⟨hr.holds hname, rfl⟩
      · have hprim' : ∀ p, s ≠ .primitive p := fun p h => hprim ⟨p, h⟩
        have hgen' : ∀ name, s ≠ .generic name := fun name h => hgen ⟨name, h⟩
        -- the invariant of rebuilding the parts: the arena extends `a`
        let I : TypeArena → Prop := fun b => (b.Grounded ∧ J b) ∧ a.Extends b
        have hparts := Shape.mapM_spec (f := substituteWithin r n) (I := I)
          (R := fun b => b.Replaced σ)
          (fun b c u v hb hbc huv => huv.mono hb.1.1 hbc) s
          (by
            rintro u hu b ⟨⟨hb, hJb⟩, hab⟩
            have hlt := ha.older hs u hu
            obtain ⟨hgood, hext, hrep⟩ := ih u b hb (hr.mono ha hab) hJb
              (hab.holds (ha.holds_part hs hu)) (by omega)
            exact ⟨⟨hgood, hab.trans hext⟩, hext, hrep⟩)
          a ⟨⟨ha, hJa⟩, .refl a⟩
        obtain ⟨⟨⟨hb, hJb⟩, -⟩, hext, hrel⟩ := hparts
        rw [substituteWithin_layer hs hprim' hgen']
        obtain ⟨hc, hrep⟩ := Replaced.intern hb (hext.get? hs) hrel hgen'
        exact ⟨⟨hc, hJ _ x s _ hb (hext.get? hs) hrel hJb⟩, hext.trans (extends_intern _ _), hrep⟩

/-! ## Instances -/

theorem mem_zip_of_replacement_lookup {id : TypeId}
    (h : (a.replacement gs xs).lookup name = some id) :
    ∃ g, (g, id) ∈ gs.zip xs ∧ a.get? g = some (.generic name) := by
  obtain ⟨before, after, happ, -⟩ := List.lookup_eq_some_iff.1 h
  have hmem : (name, id) ∈ a.replacement gs xs := by
    rw [happ]
    exact List.mem_append_right _ List.mem_cons_self
  obtain ⟨⟨g, x⟩, hzip, hentry⟩ := List.mem_filterMap.1 (List.mem_reverse.1 hmem)
  dsimp only at hentry
  split at hentry
  · next hg =>
    cases hentry
    exact ⟨g, hzip, hg⟩
  · cases hentry

theorem mem_of_replacement_lookup {id : TypeId} (h : (a.replacement gs xs).lookup name = some id) :
    id ∈ xs := by
  obtain ⟨g, hzip, -⟩ := mem_zip_of_replacement_lookup h
  exact (List.of_mem_zip hzip).2

/-- What the arguments of an interface stand for, as trees. -/
def argumentTrees (a : TypeArena) (gs xs : List TypeId) (name : String) : Option TypeTree :=
  ((a.replacement gs xs).lookup name).map a.unfold

/-- Parameters are replaced by arguments. -/
theorem replaces_arguments (hxs : ∀ x ∈ xs, a.Holds x) :
    a.Replaces (a.replacement gs xs) (a.argumentTrees gs xs) :=
  ⟨fun h => hxs _ (mem_of_replacement_lookup h), fun _ => rfl⟩

theorem holds_instance_parts {qs : List Property} (hxs : ∀ x ∈ xs, a.Holds x)
    (hqs : List.Forall₂ (Property.Rel (a.Replaced σ)) ps qs) :
    ∀ part ∈ (Shape.interface name xs qs).parts, a.Holds part := by
  intro part hp
  rcases List.mem_append.1 hp with hx | hq
  · exact hxs part hx
  · obtain ⟨i, hi, rfl⟩ := List.getElem_of_mem hq
    rw [List.length_map] at hi
    rw [List.getElem_map]
    exact (hqs.get (by rw [hqs.length_eq]; exact hi) hi).type.2.1

/-- Instantiation interns the interface over rebuilt properties. -/
theorem instantiate_spec {J : TypeArena → Prop} {d : TypeId}
    (hJ : ∀ b x s t, b.Grounded → b.get? x = some s →
      Shape.Rel (b.Replaced (a.argumentTrees gs xs)) s t → J b → J (intern t b).2) (ha : a.Grounded)
    (hJa : J a) (hd : a.get? d = some (.interface name gs ps)) (hlen : gs.length = xs.length)
    (hxs : ∀ x ∈ xs, a.Holds x) :
    ∃ b qs, b.Grounded ∧ J b ∧ a.Extends b ∧
      List.Forall₂ (Property.Rel (b.Replaced (a.argumentTrees gs xs))) ps qs ∧
      instantiate d xs a =
        (some (intern (.interface name xs qs) b).1, (intern (.interface name xs qs) b).2) := by
  -- the invariant of rebuilding the properties: the arena extends `a`
  let I : TypeArena → Prop := fun b => (b.Grounded ∧ J b) ∧ a.Extends b
  let f := substituteWithin (a.replacement gs xs) (a.idBound xs + 1)
  have hprops : I (ps.mapM (fun p => p.mapM f) a).2 ∧
      a.Extends (ps.mapM (fun p => p.mapM f) a).2 ∧
      List.Forall₂ (Property.Rel ((ps.mapM (fun p => p.mapM f) a).2.Replaced
        (a.argumentTrees gs xs))) ps (ps.mapM (fun p => p.mapM f) a).1 := by
    refine mapM_spec (R := fun c p q => Property.Rel (c.Replaced (a.argumentTrees gs xs)) p q)
      ?_ ps ?_ a ⟨⟨ha, hJa⟩, .refl a⟩
    · intro b c p q hb hbc hpq
      exact ⟨hpq.name, hpq.type.mono hb.1.1 hbc, hpq.optional⟩
    · rintro p hp b ⟨⟨hb, hJb⟩, hab⟩
      have hpart : a.Holds p.type :=
        ha.holds_part hd (List.mem_append_right gs (List.mem_map_of_mem hp))
      have hlt : p.type.index < a.size := hpart
      have hbound := a.size_le_idBound xs
      obtain ⟨hgood, hext, hrep⟩ := substituteWithin_spec hJ (a.idBound xs + 1) p.type b hb
        ((replaces_arguments hxs).mono ha hab) hJb (hab.holds hpart) (by omega)
      exact ⟨⟨hgood, hab.trans hext⟩, hext, rfl, hrep, rfl⟩
  obtain ⟨⟨⟨hb, hJb⟩, -⟩, hext, hrel⟩ := hprops
  refine ⟨_, _, hb, hJb, hext, hrel, ?_⟩
  unfold instantiate
  rw [show ∀ g : TypeArena → StateM TypeArena (Option TypeId), (get >>= g) a = g a a from
    fun _ => rfl, hd]
  dsimp only
  rw [if_pos hlen]
  rfl

theorem extends_instantiate {d : TypeId} (ha : a.Grounded)
    (hd : a.get? d = some (.interface name gs ps)) (hlen : gs.length = xs.length)
    (hxs : ∀ x ∈ xs, a.Holds x) : a.Extends (instantiate d xs a).2 := by
  obtain ⟨b, qs, -, -, hab, -, heq⟩ := instantiate_spec (J := fun _ => True)
    (fun _ _ _ _ _ _ _ _ => .intro) ha .intro hd hlen hxs
  rw [heq]
  exact hab.trans (extends_intern b _)

end TypeArena

end TypedLua
