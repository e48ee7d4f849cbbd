import Mathlib.Data.List.Perm.Subperm
import TypedLua.Proofs.Types.Substitution

/-!
# Types.Renaming

Two arenas that are worked on in step.  A renaming says which id each type of a first, grounded
arena has in a second; the second may hold other types besides.  Interning related shapes on both
sides keeps the arenas in step and lengthens the renaming by at most one place, and so does every
action that is made of such steps, such as instantiating an interface.

Main statements: `Matches.intern`, `inStep_substituteWithin` and `inStep_instantiate`.
-/

namespace TypedLua

/-! ## Part by part -/

variable {x y : TypeId} {s t : Shape}

namespace InStep

variable {W : Type} [Preorder W] {S T : Type} {state : W → S → T → Prop} {w : W}
  {R Q : Link W TypeId TypeId} {f : TypeId → StateM S TypeId} {g : TypeId → StateM T TypeId}

theorem properties_mapM {ps qs : List Property} (hpq : R.property.list.rel w ps qs)
    (hfg : ∀ v x y, w ≤ v → R.rel v x y → InStep state v Q (f x) (g y)) :
    InStep state w Q.property.list (ps.mapM (·.mapM f)) (qs.mapM (·.mapM g)) := by
  refine InStep.mapM hpq ?_
  intro v p q hwv h
  refine (hfg v _ _ hwv h.type).bind ?_
  intro u x y _ hxy
  exact .pure ⟨h.name, hxy, h.optional⟩

/-- Programs in step, run for the parts of related layers, stay in step. -/
theorem shape_mapM (hst : R.shape.rel w s t)
    (hfg : ∀ v x y, w ≤ v → R.rel v x y → InStep state v Q (f x) (g y)) :
    InStep state w Q.shape (s.mapM f) (t.mapM g) := by
  have hone : ∀ {x y}, R.rel w x y → InStep state w Q (f x) (g y) :=
    fun h => hfg w _ _ (le_refl w) h
  cases hst with
  | primitive p => exact .pure (.primitive p)
  | generic name => exact .pure (.generic name)
  | array h => exact (hone h).bind fun v x y _ hxy => .pure (.array hxy)
  | vararg h => exact (hone h).bind fun v x y _ hxy => .pure (.vararg hxy)
  | function hx hu =>
    refine (InStep.mapM hx hfg).bind fun v xs ys hwv hxs => ?_
    refine (InStep.mapM (R.list.mono hwv hu) fun u x y h => hfg u x y (le_trans hwv h)).bind ?_
    intro u us vs hvu hus
    exact .pure (.function (Q.list.mono hvu hxs) hus)
  | table hps =>
    exact (properties_mapM hps hfg).bind fun v ps qs _ hpq => .pure (.table hpq)
  | interface name hg hps =>
    refine (InStep.mapM hg hfg).bind fun v gs hs hwv hgs => ?_
    refine (properties_mapM (R.property.list.mono hwv hps)
      fun u x y h => hfg u x y (le_trans hwv h)).bind ?_
    intro u ps qs hvu hpq
    exact .pure (.interface name (Q.list.mono hvu hgs) hpq)

end InStep

/-! ## Renamings -/

/-- At each place the id, in a second arena, of the type that has this place in a first one. -/
structure Renaming where
  images : List TypeId

namespace Renaming

/-- The type `x` of the first arena is `y` in the second. -/
def Maps (w : Renaming) (x y : TypeId) : Prop := w.images[x.index]? = some y

/-- A later renaming goes on where an earlier one ends. -/
instance : Preorder Renaming where
  le w v := w.images <+: v.images
  le_refl w := List.prefix_refl w.images
  le_trans _ _ _ := List.IsPrefix.trans

theorem Maps.mono {w v : Renaming} (h : w.Maps x y) (hwv : w ≤ v) : v.Maps x y := by
  obtain ⟨hlt, -⟩ := List.getElem?_eq_some_iff.1 h
  obtain ⟨rest, hrest⟩ := hwv
  show v.images[x.index]? = some y
  rw [← hrest, List.getElem?_append_left hlt]
  exact h

/-- Types correspond if one is renamed to the other. -/
def types : Link Renaming TypeId TypeId where
  rel := Maps
  mono hwv _ _ h := h.mono hwv

theorem Maps.eq {w : Renaming} {z : TypeId} (hy : w.Maps x y) (hz : w.Maps x z) : y = z :=
  Option.some.inj (Eq.trans (Eq.symm hy) hz)

/-! ## Arenas in step -/

/-- The renaming covers the first arena, which is grounded, and related ids denote related shapes;
no two types become one, and primitives stay what they are. -/
structure Matches (w : Renaming) (a b : TypeArena) : Prop where
  left : a.Grounded
  right : b.Canonical
  length : w.images.length = a.size
  distinct : w.images.Nodup
  primitive (p : Primitive) : w.Maps p.typeId p.typeId
  embeds : TypeArena.Embeds w.Maps a b

variable {w : Renaming} {a b : TypeArena}

theorem Matches.biUnique (h : w.Matches a b) : Relator.BiUnique w.Maps := by
  constructor
  · intro x y z hx hy
    obtain ⟨hlt, -⟩ := List.getElem?_eq_some_iff.1 hx
    have hindex : x.index = y.index :=
      (List.getElem?_inj hlt h.distinct).1 (Eq.trans hx (Eq.symm hy))
    cases x
    cases y
    exact congrArg TypeId.mk hindex
  · intro x y z hy hz
    exact hy.eq hz

theorem Matches.exists_maps (h : w.Matches a b) (hx : a.Holds x) : ∃ y, w.Maps x y := by
  have hlt : x.index < w.images.length := by
    rw [h.length]
    exact hx
  exact ⟨w.images.get ⟨x.index, hlt⟩, List.getElem?_eq_getElem hlt⟩

theorem Matches.size_le (h : w.Matches a b) : a.size ≤ b.size := by
  have hsub : w.images ⊆ (List.range b.size).map TypeId.mk := by
    intro y hy
    obtain ⟨i, hi, rfl⟩ := List.getElem_of_mem hy
    have hmaps : w.Maps ⟨i⟩ (w.images.get ⟨i, hi⟩) := List.getElem?_eq_getElem hi
    have hlt := (h.embeds.holds hmaps).2
    exact List.mem_map.2 ⟨_, List.mem_range.2 hlt, rfl⟩
  have hle := (List.subperm_of_subset h.distinct hsub).length_le
  rw [List.length_map, List.length_range, h.length] at hle
  exact hle

/-- Arenas that match are alike. -/
theorem Matches.alike (h : w.Matches a b) : TypeArena.Alike w.Maps a b :=
  ⟨h.left, h.size_le, h.biUnique, h.primitive, h.embeds⟩

/-! ## Interning -/

/-- The renaming with one more place. -/
def push (w : Renaming) (y : TypeId) : Renaming := ⟨w.images ++ [y]⟩

theorem le_push (w : Renaming) (y : TypeId) : w ≤ w.push y := List.prefix_append _ _

theorem push_maps_cases {z : TypeId} (h : (w.push z).Maps x y) :
    w.Maps x y ∨ (x.index = w.images.length ∧ y = z) := by
  have hget : (w.images ++ [z])[x.index]? = some y := h
  by_cases hlt : x.index < w.images.length
  · rw [List.getElem?_append_left hlt] at hget
    exact .inl hget
  · right
    obtain ⟨hle, heq⟩ := List.getElem?_eq_some_iff.1 hget
    rw [List.length_append, List.length_singleton] at hle
    have hend : x.index = w.images.length := by omega
    refine ⟨hend, ?_⟩
    simp only [hend, List.getElem_concat_length] at heq
    exact heq.symm

theorem Matches.not_mem_images (h : w.Matches a b) (hst : Shape.Rel w.Maps s t)
    (hnew : s ∉ a.shapes) : (TypeArena.intern t b).1 ∉ w.images := by
  intro hmem
  obtain ⟨i, hi, hy⟩ := List.getElem_of_mem hmem
  have hmaps : w.Maps ⟨i⟩ (TypeArena.intern t b).1 := by
    rw [← hy]
    exact List.getElem?_eq_getElem hi
  -- that id denotes `t`, so what is renamed to it has the shape `s`, which is then not new
  obtain ⟨s', t', hs', ht', hst'⟩ := h.embeds _ _ hmaps
  have hget := (TypeArena.extends_intern b t).get? ht'
  obtain rfl : t = t' := Option.some.inj ((TypeArena.get?_intern b t).symm.trans hget)
  obtain rfl : s = s' := hst.left_unique h.biUnique.1 hst'
  exact hnew (List.mem_of_getElem? hs')

/-- They match when a layer is new in the one and is interned in the other. -/
theorem Matches.push (h : w.Matches a b) (hst : Shape.Rel w.Maps s t) (hnew : s ∉ a.shapes)
    (hleft : TypeArena.Grounded ⟨a.shapes ++ [s]⟩) :
    (w.push (TypeArena.intern t b).1).Matches ⟨a.shapes ++ [s]⟩ (TypeArena.intern t b).2 := by
  have hle := le_push w (TypeArena.intern t b).1
  have hextends := TypeArena.extends_intern b t
  refine ⟨hleft, h.right.intern t, ?_, ?_, fun p => (h.primitive p).mono hle, ?_⟩
  · show (w.images ++ [_]).length = (a.shapes ++ [s]).length
    rw [List.length_append, List.length_append, h.length]
    rfl
  · show (w.images ++ [_]).Nodup
    rw [List.nodup_append]
    refine ⟨h.distinct, by simp, ?_⟩
    intro x hx y hy hxy
    rw [List.mem_singleton.1 hy] at hxy
    exact h.not_mem_images hst hnew (hxy ▸ hx)
  · intro x y hxy
    rcases push_maps_cases hxy with hold | ⟨hend, rfl⟩
    · obtain ⟨s', t', hs', ht', hst'⟩ := h.embeds x y hold
      refine ⟨s', t', ?_, hextends.get? ht', hst'.mono fun u v huv => huv.mono hle⟩
      exact TypeArena.Extends.get? (List.prefix_append _ _) hs'
    · refine ⟨s, t, ?_, TypeArena.get?_intern b t, hst.mono fun u v huv => huv.mono hle⟩
      show (a.shapes ++ [s])[x.index]? = some s
      rw [hend, h.length]
      exact List.getElem?_concat_length

/-- Interning related layers keeps arenas matching. -/
theorem Matches.intern (h : w.Matches a b) (hst : Shape.Rel w.Maps s t) :
    ∃ v, w ≤ v ∧ v.Maps (TypeArena.intern s a).1 (TypeArena.intern t b).1 ∧
      v.Matches (TypeArena.intern s a).2 (TypeArena.intern t b).2 := by
  have hparts : ∀ part ∈ s.parts, a.Holds part := by
    intro part hp
    obtain ⟨i, hi, rfl⟩ := List.getElem_of_mem hp
    exact (h.embeds.holds (hst.parts.get hi (by rw [← hst.parts.length_eq]; exact hi))).1
  rcases TypeArena.intern_cases a s with ⟨x, hx, heq⟩ | ⟨hnew, heq⟩
  · -- the first arena holds the shape, and then so does the second, at the renamed id
    obtain ⟨y, hxy⟩ := h.exists_maps (TypeArena.holds_of_get? hx)
    obtain ⟨s', t', hs', ht', hst'⟩ := h.embeds x y hxy
    obtain rfl : s = s' := Option.some.inj (hx.symm.trans hs')
    obtain rfl : t = t' := hst.right_unique h.biUnique.2 hst'
    rw [heq, h.right.intern_eq ht']
    exact ⟨w, le_refl w, hxy, h⟩
  · have hleft := h.left.intern hparts
    rw [heq] at hleft ⊢
    refine ⟨w.push (TypeArena.intern t b).1, le_push w _, ?_, h.push hst hnew hleft⟩
    show (w.images ++ [_])[a.size]? = _
    rw [← h.length, List.getElem?_concat_length]

/-! ## Substitution and instantiation -/

theorem inStep_intern (hst : types.shape.rel w s t) :
    InStep Matches w types (TypeArena.intern s) (TypeArena.intern t) :=
  fun _ _ hab => hab.intern hst

/-- So does substitution. -/
theorem inStep_substituteWithin {r q : TypeArena.Replacement}
    (hrq : (Link.same.pair types).list.rel w r q) :
    ∀ (n m : Nat) (x y : TypeId), w.Maps x y → x.index < n → x.index < m →
      InStep Matches w types (TypeArena.substituteWithin r n x)
        (TypeArena.substituteWithin q m y) := by
  intro n
  induction n generalizing w with
  | zero => intro m x y _ hn; omega
  | succ n ih =>
    intro m x y hxy hn hm a b hab
    obtain ⟨m, rfl⟩ : ∃ k, m = k + 1 := ⟨m - 1, by omega⟩
    obtain ⟨s, t, hs, ht, hst⟩ := hab.embeds.layer hab.left hxy
    -- parts are renamed and older, so that both numbers of layers suffice for them
    let older : Link Renaming TypeId TypeId :=
      ⟨fun v u u' => v.Maps u u' ∧ u.index < x.index, fun hwv _ _ h => ⟨h.1.mono hwv, h.2⟩⟩
    have hlayer : ∀ {s t : Shape}, older.shape.rel w s t →
        InStep Matches w types (s.mapM (TypeArena.substituteWithin r n) >>= TypeArena.intern)
          (t.mapM (TypeArena.substituteWithin q m) >>= TypeArena.intern) := by
      intro s t hst
      refine (InStep.shape_mapM hst ?_).bind fun v s' t' _ h => inStep_intern h
      rintro v u u' hwv ⟨huu, hlt⟩
      exact ih ((Link.same.pair types).list.mono hwv hrq) m u u' huu (by omega) (by omega)
    rw [TypeArena.substituteWithin_succ, TypeArena.substituteWithin_succ, hs, ht]
    cases hst with
    | primitive p => exact ⟨w, le_refl w, hxy, hab⟩
    | generic name =>
      refine ⟨w, le_refl w, ?_, hab⟩
      show w.Maps ((r.lookup name).getD x) ((q.lookup name).getD y)
      have hlookup := types.lookup hrq name
      generalize r.lookup name = z, q.lookup name = z' at hlookup ⊢
      cases hlookup with
      | none => exact hxy
      | some h => exact h
    | array h => exact hlayer (.array h) a b hab
    | vararg h => exact hlayer (.vararg h) a b hab
    | function hx hu => exact hlayer (.function hx hu) a b hab
    | table hps => exact hlayer (.table hps) a b hab
    | interface name hg hps => exact hlayer (.interface name hg hps) a b hab

theorem Matches.replacement (h : w.Matches a b) {gs hs xs ys : List TypeId}
    (hg : types.list.rel w gs hs) (hx : types.list.rel w xs ys) :
    (Link.same.pair types).list.rel w (a.replacement gs xs) (b.replacement hs ys) := by
  refine List.rel_reverse ?_
  change List.Forall₂ w.Maps gs hs at hg
  induction hg generalizing xs ys with
  | nil => exact .nil
  | @cons g g' gs hs hgg _ ih =>
    cases hx with
    | nil => exact .nil
    | @cons x x' xs ys hxx hxs =>
      obtain ⟨s, t, hs, ht, hst⟩ := h.embeds g g' hgg
      rw [List.zip_cons_cons, List.zip_cons_cons, List.filterMap_cons, List.filterMap_cons]
      dsimp only
      rw [hs, ht]
      cases hst with
      | generic name => exact .cons ⟨rfl, hxx⟩ (ih hxs)
      | _ => exact ih hxs

/-- So does instantiation. -/
theorem inStep_instantiate {xs ys : List TypeId} (hxy : w.Maps x y)
    (hargs : types.list.rel w xs ys) :
    InStep Matches w types.option (TypeArena.instantiate x xs) (TypeArena.instantiate y ys) := by
  refine .get_bind fun a b hab => ?_
  obtain ⟨s, t, hs, ht, hst⟩ := hab.embeds.layer hab.left hxy
  have hx : x.index < a.size := (hab.embeds.holds hxy).1
  have hsize := hab.size_le
  have hleft := a.size_le_idBound xs
  have hright := b.size_le_idBound ys
  rw [hs, ht]
  cases hst with
  | @interface name gs gs' ps qs hg hps =>
    have hg : types.list.rel w gs gs' := hg.imp fun _ _ h => h.1
    have hlen : gs.length = xs.length ↔ gs'.length = ys.length := by
      rw [List.Forall₂.length_eq hg, List.Forall₂.length_eq hargs]
    show InStep Matches w types.option (if _ then _ else _) (if _ then _ else _)
    by_cases hcount : gs.length = xs.length
    · rw [if_pos hcount, if_pos (hlen.1 hcount)]
      let older : Link Renaming TypeId TypeId :=
        ⟨fun v u u' => v.Maps u u' ∧ u.index < x.index, fun hwv _ _ h => ⟨h.1.mono hwv, h.2⟩⟩
      refine (InStep.properties_mapM (R := older) (Q := types) hps ?_).bind ?_
      · rintro v u u' hwv ⟨huu, hlt⟩
        exact inStep_substituteWithin
          ((Link.same.pair types).list.mono hwv (hab.replacement hg hargs)) _ _ u u' huu
          (by omega) (by omega)
      · intro v ps' qs' hwv hps'
        refine (inStep_intern (.interface name (types.list.mono hwv hargs) hps')).bind ?_
        intro u z z' _ hz
        exact .pure (.some hz)
    · rw [if_neg hcount, if_neg fun h => hcount (hlen.2 h)]
      exact .pure .none
  | _ => exact .pure .none

end Renaming

end TypedLua
