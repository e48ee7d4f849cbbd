import TypedLua.Proofs.Types.Comparison
import TypedLua.Proofs.Typing.Leaves

/-!
# Typing.Demanded

Checking with a demand and without.  A demand leads constructors along other ways: an array has to be
wanted, entries are checked against the wanted properties, and the types that are found may be others.
Still, what is accepted without a demand, with a type that the wanted one takes, is accepted with the
demand, as long as no names are repeated: then each wanted property is compared with the entry for
which it is demanded.

Main statements: `check_suits`, by induction on the expression, for a demand that comes up anywhere
behind the check without one, and `check_with_demand`, for one that comes up in its stead.
-/

namespace TypedLua

open Text Typing

/-! ## Names that are not repeated -/

namespace TypeTree

mutual

/-- No table or interface in the tree repeats the name of a property. -/
def namesDistinct : TypeTree → Bool
  | node layer parts =>
    decide (layer.properties.map Property.name).Nodup && namesDistinctAll parts
  | _ => true

/-- No table or interface in the trees repeats the name of a property. -/
def namesDistinctAll : List TypeTree → Bool
  | [] => true
  | t :: ts => t.namesDistinct && namesDistinctAll ts

end

theorem namesDistinctAll_eq_all (ts : List TypeTree) :
    namesDistinctAll ts = ts.all namesDistinct := by
  induction ts with
  | nil => rfl
  | cons t ts ih => rw [namesDistinctAll, ih, List.all_cons]

theorem namesDistinct_ofShape {f : TypeId → TypeTree} {s : Shape}
    (h : (ofShape f s).namesDistinct = true) :
    (s.properties.map Property.name).Nodup ∧ ∀ x ∈ s.parts, (f x).namesDistinct = true := by
  have hblank : s.blank.properties.map Property.name = s.properties.map Property.name := by
    cases s <;> simp [Shape.blank, Shape.properties]
  cases s with
  | generic name => exact ⟨List.nodup_nil, fun x hx => absurd hx List.not_mem_nil⟩
  | _ =>
    change (node (Shape.blank _) ((Shape.parts _).map f)).namesDistinct = true at h
    rw [namesDistinct, hblank, namesDistinctAll_eq_all, Bool.and_eq_true,
      decide_eq_true_iff, List.all_map, List.all_eq_true] at h
    exact h

end TypeTree

/-- No name is repeated among the entries, if the expression is a constructor. -/
def Expr.NamesDistinct (vars : VariableArena) : Expr → Prop
  | .constructor entries _ => (entryNames vars entries).Nodup
  | _ => True

instance (vars : VariableArena) : DecidablePred (Expr.NamesDistinct vars) := by
  intro e
  cases e with
  | constructor entries _ => exact inferInstanceAs (Decidable (entryNames vars entries).Nodup)
  | _ => exact .isTrue trivial

namespace TypeArena

variable {a b : TypeArena} {x y : TypeId} {s t : Shape}

/-- The type is there, and no name is repeated in it. -/
structure Tidy (a : TypeArena) (x : TypeId) : Prop where
  holds : a.Holds x
  /-- No table or interface in it repeats the name of a property. -/
  distinct : (a.unfold x).namesDistinct = true

theorem Tidy.extends (h : a.Tidy x) (ha : a.Grounded) (hab : a.Extends b) : b.Tidy x :=
  ⟨hab.holds h.holds, by rw [ha.unfold_extends hab h.holds]; exact h.distinct⟩

/-- The parts of a tidy type are tidy. -/
theorem Tidy.layer (h : a.Tidy x) (ha : a.Grounded) (hs : a.get? x = some s) :
    (s.properties.map Property.name).Nodup ∧ ∀ y ∈ s.parts, a.Tidy y := by
  have hdistinct := h.distinct
  rw [ha.unfold_eq hs] at hdistinct
  obtain ⟨hnames, hparts⟩ := TypeTree.namesDistinct_ofShape hdistinct
  exact ⟨hnames, fun y hy => ⟨ha.holds_part hs hy, hparts y hy⟩⟩

/-- A tidy type takes another layer by layer. -/
theorem Tidy.takes (h : a.Tidy x) (ha : a.Grounded) (hs : a.get? x = some s) (ht : a.get? y = some t)
    (hxy : a.compatible x y = true) : s.takes a.compatible t = true := by
  rw [ha.compatible_layer hs ht, Bool.or_eq_true, beq_iff_eq] at hxy
  rcases hxy with rfl | htakes
  · obtain rfl := Option.some.inj (hs.symm.trans ht)
    refine Shape.takes_self a.compatible_self ?_
    have hnames := (h.layer ha hs).1
    cases s with
    | table ps => exact hnames
    | _ => exact List.nodup_nil
  · exact htakes

theorem Tidy.eq_primitive (h : a.Tidy x) (ha : a.Grounded) {p : Primitive}
    (hx : a.compatible x p.typeId = true) : x = p.typeId := by
  obtain ⟨s, hs⟩ := h.holds.get?
  have htakes := h.takes ha hs (ha.primitive p) hx
  cases s with
  | primitive q =>
    rw [show q = p from beq_iff_eq.1 htakes] at hs
    exact ha.eq_of_get? hs (ha.primitive p)
  | _ => cases htakes

end TypeArena

/-- The type is there, and it is taken by the one that is wanted, if any is. -/
structure Suits (a : TypeArena) (goal : Option TypeId) (t : TypeId) : Prop where
  holds : a.Holds t
  /-- The wanted type repeats no name, and takes it. -/
  taken : ∀ g ∈ goal, a.Tidy g ∧ a.compatible g t = true

theorem Suits.extends {a b : TypeArena} {goal : Option TypeId} {t : TypeId} (h : Suits a goal t)
    (ha : a.Grounded) (hab : a.Extends b) : Suits b goal t := by
  refine ⟨hab.holds h.holds, fun g hg => ?_⟩
  obtain ⟨htidy, htaken⟩ := h.taken g hg
  refine ⟨htidy.extends ha hab, ?_⟩
  rw [ha.compatible_eq hab htidy.holds h.holds]
  exact htaken

/-! ## Checking in a larger arena -/

section

variable {w : Arenas} {e e₁ : Expr} {demand : Demand} {a c : TypeArena}

theorem Arenas.Sound.extended (hw : w.Sound) (hc : c.Grounded) (hle : w.types.Extends c) :
    Arenas.Sound ⟨c, w.vars⟩ := ⟨hc, fun hv => hle.holds (hw.declared hv)⟩

theorem expr_rel_extended (he : Arenas.expr.rel w e e) (hle : w.types.Extends c) :
    Arenas.expr.rel ⟨c, w.vars⟩ e e :=
  Expr.Agree.mono (fun _ _ h => ⟨h.1, hle.holds h.2⟩) (fun _ _ h => h) he

/-- In a larger arena an expression is checked to a type of the same structure. -/
theorem check_grown {found : Except Fault TypeId} (hw : w.Sound) (he : Arenas.expr.rel w e e)
    (hd : Arenas.typeIds.option.rel w demand demand) (hc : c.Canonical) (hle : w.types.Extends c)
    (h : e.Checks w.vars demand w.types e₁ found a) :
    ∃ (u : Renaming) (e₂ : Expr) (found' : Except Fault TypeId) (b : TypeArena),
      e.Checks w.vars demand c e₂ found' b ∧ (Renaming.types.result Eq).rel u found found' ∧
        w.types.keeping ≤ u ∧ u.Matches a b := by
  have hself : (Link.expr .all Renaming.types Link.same).rel w.types.keeping e e :=
    Expr.Agree.mono (fun x y hxy => TypeArena.keeping_maps_iff.2 hxy) (fun x y hxy => hxy.1) he
  have hdemand : Renaming.types.option.rel w.types.keeping demand demand := by
    cases hd with
    | none => exact .none
    | some hid => exact .some (TypeArena.keeping_maps_iff.2 hid)
  obtain ⟨u, hu, hr, hmatches⟩ := inStep_check matches_inStep e hw.keeping_variables hself hdemand
    w.types c (TypeArena.keeping_matches hw.grounded hc hle)
  rw [h.run] at hr hmatches
  exact ⟨u, _, _, _, Expr.checks_iff.1 rfl, hr.2, hu, hmatches⟩

/-- Where its type is known, an expression is checked to it again. -/
theorem check_settled {t : TypeId} (hw : w.Sound) (he : Arenas.expr.rel w e e)
    (h : e.Checks w.vars none w.types e₁ (.ok t) a) (hc : c.Grounded) (hac : a.Extends c) :
    ∃ e₂ b, e.Checks w.vars none c e₂ (.ok t) b ∧ c.Extends b ∧ b.Grounded := by
  obtain ⟨hle, hw₁, -, hfound⟩ := h.sound hw he .none
  have hwc := hle.1.trans hac
  obtain ⟨u, e₂, found', b, hrun, hr, -, hmatches⟩ := check_grown hw he .none hc.toCanonical hwc h
  obtain ⟨hcb, hb, -, hfound'⟩ := Expr.Checks.sound (w := ⟨c, w.vars⟩) hrun (hw.extended hc hwc)
    (expr_rel_extended he hwc) .none
  cases hr with
  | @ok _ t' hmaps =>
    -- types of one structure have one id
    have hsame : b.unfold t = b.unfold t' := by
      rw [hw₁.grounded.unfold_extends (hac.trans hcb.1) hfound.of_ok.2]
      exact (hmatches.sameStructure hmaps).unfold_eq
    have hheld := (hac.trans hcb.1).holds hfound.of_ok.2
    rw [(hb.grounded.unfold_eq_iff hheld hfound'.of_ok.2).1 hsame]
    exact ⟨e₂, b, hrun, hcb.1, hb.grounded⟩

end

/-! ## Plans -/

section

variable {a₀ a b₁ c : TypeArena} {vars : VariableArena} {ts : List TypeId} {t g : TypeId}

theorem findProperty_eq_none_iff {ps : List Property} {name : String} :
    findProperty ps name = none ↔ name ∉ ps.map Property.name := by
  simp [findProperty, List.find?_eq_none]

/-- The properties of a table with entries of the given names and types. -/
def propertiesOf (names : List String) (types : List TypeId) : List Property :=
  (names.zip types).map fun pair => ⟨pair.1, pair.2, false⟩

theorem names_propertiesOf {names : List String} {types : List TypeId}
    (h : names.length = types.length) : (propertiesOf names types).map Property.name = names := by
  rw [propertiesOf, List.map_map]
  exact List.map_fst_zip (Nat.le_of_eq h)

/-- A table that a tidy type takes is planned for that type as well. -/
theorem tableResult_suits (hc : c.Grounded) (hg : c.Tidy g) {names : List String}
    (hnames : names.Nodup) (hlength : names.length = ts.length) (hts : ∀ x ∈ ts, c.Holds x)
    (hresult : tableResult none none names ts b₁ = (t, a)) (hac : a.Extends c)
    (htaken : c.compatible g t = true) :
    ∃ ps, c.get? g = some (.table ps) ∧
      List.Forall₂ (fun name => Suits c ((findProperty ps name).map Property.type)) names ts ∧
      ∀ {ts' : List TypeId} {b : TypeArena}, c.Extends b → b.Grounded →
        List.Forall₂ (fun name => Suits b ((findProperty ps name).map Property.type)) names ts' →
        ∃ t' b', tableResult (some g) (some (.table ps)) names ts' b = (t', b') ∧
          b.Extends b' ∧ b'.Grounded ∧ Suits b' (some g) t' := by
  obtain ⟨table, b₂, hintern, h⟩ := run_bind hresult
  cases h
  have hget : c.get? t = some (.table (propertiesOf names ts)) :=
    hac.get? (TypeArena.get?_of_intern hintern)
  obtain ⟨s, hs⟩ := hg.holds.get?
  have htakes := hg.takes hc hs hget htaken
  obtain ⟨hdistinct, hparts⟩ := hg.layer hc hs
  cases s with
  | table ps =>
    change (ps.map Property.name).Nodup at hdistinct
    have hunique : ((propertiesOf names ts).map Property.name).Nodup := by
      rw [names_propertiesOf hlength]
      exact hnames
    refine ⟨ps, hs, List.forall₂_iff_zip.2 ⟨hlength, fun {name x} hx => ?_⟩, ?_⟩
    · refine ⟨hts x (List.of_mem_zip hx).2, fun g hg => ?_⟩
      obtain ⟨p, hp, rfl⟩ := Option.map_eq_some_iff.1 hg
      obtain ⟨hmem, rfl⟩ := TypeArena.findProperty_mem hp
      have hfound : findProperty (propertiesOf names ts) p.name = some ⟨p.name, x, false⟩ :=
        findProperty_self hunique (List.mem_map_of_mem hx)
      have hone := List.all_eq_true.1 htakes p hmem
      rw [hfound] at hone
      exact ⟨hparts p.type (List.mem_map_of_mem hmem), hone⟩
    · intro ts' b hcb hb hsuits
      obtain ⟨hlength', hsuits⟩ := List.forall₂_iff_zip.1 hsuits
      obtain ⟨⟨t', b'⟩, hrun⟩ :
        ∃ run, TypeArena.intern (.table (propertiesOf names ts')) b = run := ⟨_, rfl⟩
      have hbb' := TypeArena.extends_of_intern hrun
      have hget' := TypeArena.get?_of_intern hrun
      have hb' : b'.Grounded := by
        have hheld : ∀ x ∈ (Shape.table (propertiesOf names ts')).parts, b.Holds x := by
          intro x hx
          obtain ⟨p, hp, rfl⟩ := List.mem_map.1 hx
          obtain ⟨pair, hpair, rfl⟩ := List.mem_map.1 hp
          exact (hsuits hpair).holds
        have hkept := hb.intern hheld
        rwa [hrun] at hkept
      have hcb' := hcb.trans hbb'
      refine ⟨t', b', (bind_of_run hrun).trans rfl, hbb', hb', TypeArena.holds_of_get? hget',
        fun g' hg' => ?_⟩
      obtain rfl := Option.some.inj hg'
      refine ⟨hg.extends hc hcb', ?_⟩
      rw [hb'.compatible_layer (hcb'.get? hs) hget', Bool.or_eq_true]
      refine .inr (List.all_eq_true.2 fun p hp => ?_)
      cases hq : findProperty (propertiesOf names ts') p.name with
      | none =>
        -- no entry has the name, with these types or with the others
        have hone := List.all_eq_true.1 htakes p hp
        rw [findProperty_eq_none_iff, names_propertiesOf hlength', ← names_propertiesOf hlength,
          ← findProperty_eq_none_iff] at hq
        rw [hq] at hone
        exact hone
      | some q =>
        obtain ⟨hmem, hname⟩ := TypeArena.findProperty_mem hq
        obtain ⟨pair, hpair, rfl⟩ := List.mem_map.1 hmem
        have hone := hsuits hpair
        rw [show pair.1 = p.name from hname, findProperty_self hdistinct hp] at hone
        exact ((hone.extends hb hbb').taken p.type rfl).2
  | _ => cases htakes

theorem demandOf_eq_some_iff {x : TypeId} : demandOf x = some g ↔ x.isAny = false ∧ g = x := by
  unfold demandOf
  split
  · next hany => simp [hany, eq_comm]
  · next hany => simp [hany, eq_comm]

theorem commonType_cases {x : TypeId} (hx : x ∈ ts) : commonType ts = x ∨ commonType ts = .any := by
  cases ts with
  | nil => cases hx
  | cons t ts =>
    rw [commonType]
    split
    · next hall =>
      rcases List.mem_cons.1 hx with rfl | hx
      · exact .inl rfl
      · exact .inl (beq_iff_eq.1 (List.all_eq_true.1 hall x hx)).symm
    · exact .inr rfl

/-- So is a constructor, and what its entries suit suits the whole. -/
theorem constructorPlan_suits {entries : List Expr} {span : Span} {plan : ConstructorPlan}
    (hc : c.Grounded) (hg : c.Tidy g) (hany : g.isAny = false)
    (hnames : (entryNames vars entries).Nodup) (hlength : ts.length = entries.length)
    (hts : ∀ x ∈ ts, c.Holds x) (hplan : constructorPlan a₀ vars none entries span = .ok plan)
    (hresult : plan.result ts b₁ = (t, a)) (hac : a.Extends c) (htaken : c.compatible g t = true) :
    (∀ d ∈ plan.demands, d = none) ∧ ∃ plan' goals,
      constructorPlan c vars (some g) entries span = .ok plan' ∧
      plan'.demands = goals.map (·.bind demandOf) ∧ List.Forall₂ (Suits c) goals ts ∧
      ∀ {ts' : List TypeId} {b : TypeArena}, c.Extends b → b.Grounded →
        List.Forall₂ (Suits b) goals ts' →
        ∃ t' b', plan'.result ts' b = (t', b') ∧ b.Extends b' ∧ b'.Grounded ∧
          Suits b' (some g) t' := by
  unfold constructorPlan at hplan ⊢
  by_cases hempty : entries.isEmpty = true
  · rw [if_pos hempty] at hplan ⊢
    cases hplan
    obtain rfl := List.isEmpty_iff.1 hempty
    obtain rfl := List.eq_nil_of_length_eq_zero hlength
    cases hresult
    obtain rfl := hg.eq_primitive hc htaken
    refine ⟨fun d hd => absurd hd List.not_mem_nil, _, [], rfl, ?_, .nil, fun {ts' b} hcb hb _ => ?_⟩
    · simp [emptyPlan, hc.primitive]
    · refine ⟨Primitive.unknown.typeId, b, by simp [emptyPlan, hc.primitive]; rfl, .refl b, hb,
        hb.holds_primitive _, ?_⟩
      rintro _ ⟨⟩
      exact ⟨hg.extends hc hcb, b.compatible_self _⟩
  · rw [if_neg hempty] at hplan ⊢
    by_cases hnamed : entries.all Expr.isEntry = true
    · rw [if_pos hnamed] at hplan ⊢
      cases hplan
      have hcount : (entryNames vars entries).length = ts.length := by
        rw [hlength]
        refine List.filterMap_length_eq_length.2 fun e he => ?_
        have hentry := List.all_eq_true.1 hnamed e he
        cases e with
        | entry id value tag => rfl
        | _ => cases hentry
      obtain ⟨ps, hps, hsuits, hback⟩ :=
        tableResult_suits hc hg hnames hcount hts hresult hac htaken
      refine ⟨fun d hd => ?_, _, (entryNames vars entries).map
        fun name => (findProperty ps name).map Property.type, rfl, ?_,
        List.forall₂_map_left_iff.2 hsuits, fun hcb hb hsuits' => ?_⟩
      · obtain ⟨name, -, rfl⟩ := List.mem_map.1 hd
        rfl
      · simp only [tablePlan, Option.bind_some, hps, List.map_map]
        refine List.map_congr_left fun name _ => ?_
        show (findProperty ps name).bind _ = ((findProperty ps name).map _).bind _
        cases findProperty ps name with
        | none => rfl
        | some p => rfl
      · simp only [tablePlan, Option.bind_some, hps]
        exact hback hcb hb (List.forall₂_map_left_iff.1 hsuits')
    · rw [if_neg hnamed] at hplan ⊢
      by_cases hmixed : entries.any Expr.isEntry = true
      · rw [if_pos hmixed] at hplan
        cases hplan
      · rw [if_neg hmixed] at hplan ⊢
        cases hplan
        have hget := hac.get? (TypeArena.get?_of_intern hresult)
        obtain ⟨s, hs⟩ := hg.holds.get?
        have htakes := hg.takes hc hs hget htaken
        cases s with
        | array element =>
          have htwice : (demandOf element).bind demandOf = demandOf element := by
            by_cases helement : element.isAny = true <;> simp [demandOf, helement]
          have hplan : arrayPlan c (some g) entries.length span = .ok
              { demands := List.replicate entries.length (demandOf element)
                report := some assignability
                result := fun _ => return g } := by
            have hdemand : (some g).bind demandOf = some g := if_neg (by rw [hany]; simp)
            unfold arrayPlan
            rw [hdemand]
            simp only [hs]
          refine ⟨fun d hd => List.eq_of_mem_replicate hd, _, ts.map fun _ => demandOf element,
            hplan, ?_, ?_, fun {ts' b} hcb hb _ => ⟨g, b, rfl, .refl b, hb, hcb.holds hg.holds,
              ?_⟩⟩
          · rw [List.map_map, ← hlength]
            simp [Function.comp_def, htwice]
          · refine List.forall₂_map_left_iff.2 (List.forall₂_same.2 fun x hx => ⟨hts x hx, ?_⟩)
            intro wanted hwanted
            obtain ⟨hnot, rfl⟩ := demandOf_eq_some_iff.1 hwanted
            have htidy := (hg.layer hc hs).2 wanted List.mem_cons_self
            refine ⟨htidy, ?_⟩
            -- elements of several types are taken by an array of `any` only
            rcases commonType_cases hx with heq | heq
            · rw [← heq]
              exact htakes
            · change c.compatible wanted (commonType ts) = true at htakes
              rw [heq] at htakes
              rw [htidy.eq_primitive (p := .any) hc htakes] at hnot
              cases hnot
          · rintro _ ⟨⟩
            exact ⟨hg.extends hc hcb, b.compatible_self _⟩
        | _ => cases htakes

end

/-! ## Expressions -/

theorem length_checksEach {vars : VariableArena} {report : Option Mismatch} {es es' : List Expr}
    {demands : List Demand} {ts : List TypeId} {a b : TypeArena}
    (h : Expr.ChecksEach vars report es demands a es' (.ok ts) b) : ts.length = es.length := by
  induction es generalizing es' demands ts a with
  | nil =>
    cases h
    rfl
  | cons e es ih =>
    cases h with
    | cons _ _ heach hfound =>
      obtain ⟨ts, rfl, rfl⟩ := ok_of_map hfound
      rw [List.length_cons, List.length_cons, ih heach]

/-- What suits is no mismatch. -/
theorem Suits.mismatch? {a : TypeArena} {goal : Option TypeId} {t : TypeId} (h : Suits a goal t)
    (report : Option Mismatch) (span : Span) :
    Typing.mismatch? a report (goal.bind demandOf) t span = none := by
  unfold Typing.mismatch?
  split
  · next cause wanted hwanted =>
    obtain ⟨g, hg, hdemand⟩ := Option.bind_eq_some_iff.1 hwanted
    obtain ⟨-, rfl⟩ := demandOf_eq_some_iff.1 hdemand
    exact if_pos (h.taken wanted hg).2
  · rfl

mutual

/-- An expression that would do is accepted where its type is demanded. -/
theorem check_suits (e : Expr) {w : Arenas} {e₁ : Expr} {t : TypeId} {a c : TypeArena}
    {goal : Option TypeId} (hw : w.Sound) (he : Arenas.expr.rel w e e)
    (hnames : e.Every (Expr.NamesDistinct w.vars))
    (h : e.Checks w.vars none w.types e₁ (.ok t) a) (hac : a.Extends c) (hc : c.Grounded)
    (hgoal : Suits c goal t) :
    ∃ e₂ t' b, e.Checks w.vars (goal.bind demandOf) c e₂ (.ok t') b ∧ c.Extends b ∧
      b.Grounded ∧ Suits b goal t' := by
  -- where the demand makes no difference, the same type is found again
  have hplain : e.check w.vars (goal.bind demandOf) = e.check w.vars none →
      ∃ e₂ t' b, e.Checks w.vars (goal.bind demandOf) c e₂ (.ok t') b ∧ c.Extends b ∧
        b.Grounded ∧ Suits b goal t' := by
    intro hsame
    obtain ⟨e₂, b, hagain, hcb, hb⟩ := check_settled hw he h hc hac
    rw [← Expr.checks_iff, ← hsame, Expr.checks_iff] at hagain
    exact ⟨e₂, t, b, hagain, hcb, hb, hgoal.extends hc hcb⟩
  cases e with
  | group inner tag =>
    cases he with
    | group he _ =>
      cases h with
      | plain hplain => cases hplain
      | group h _ =>
        obtain ⟨_, t', b, hagain, hsuits⟩ := check_suits inner hw he hnames.2 h hac hc hgoal
        exact ⟨_, t', b, .group hagain rfl, hsuits⟩
  | entry id value tag =>
    cases he with
    | entry _ he _ =>
      cases h with
      | plain hplain => cases hplain
      | entry h _ =>
        obtain ⟨_, t', b, hagain, hsuits⟩ := check_suits value hw he hnames.2 h hac hc hgoal
        exact ⟨_, t', b, .entry hagain rfl, hsuits⟩
  | constructor entries tag =>
    cases hdemand : goal.bind demandOf with
    | none => exact hdemand ▸ hplain (by rw [hdemand])
    | some g =>
      obtain ⟨_, rfl, hg⟩ := Option.bind_eq_some_iff.1 hdemand
      obtain ⟨hany, rfl⟩ := demandOf_eq_some_iff.1 hg
      obtain ⟨htidy, htaken⟩ := hgoal.taken g rfl
      cases he with
      | constructor hentries _ =>
        cases h with
        | plain hplain => cases hplain
        | constructor hplan heach hresult =>
          have hrel := constructorPlan_rel hw .none hentries hplan
          obtain ⟨hle, hw₁, -, hts⟩ := heach.sound hw hentries hrel.demands
          obtain ⟨hle₂, -, -⟩ := (hrel.result hle hts.of_ok).sound hw₁ hresult
          have hb₁ := hle₂.1.trans hac
          obtain ⟨hnone, plan', goals, hplan', hdemands, hgoals, hback⟩ :=
            constructorPlan_suits hc htidy hany hnames.1 (length_checksEach heach)
              (fun x hx => hb₁.holds (List.forall₂_same.1 hts.of_ok x hx).2) hplan hresult hac htaken
          obtain ⟨_, ts', b, hagain, hcb, hb, hsuits⟩ := checkEach_suits plan'.report entries hw
            hentries hnames.2 hnone heach hb₁ hc hgoals
          obtain ⟨t', b', hresult', hbb', hb', hsuits'⟩ := hback hcb hb hsuits
          rw [← hdemands] at hagain
          exact ⟨_, t', b', .constructor hplan' hagain hresult', hcb.trans hbb', hb', hsuits'⟩
  | call | member | index => exact hplain (by rw [Expr.check, Expr.check])
  | _ => exact hplain rfl

theorem checkEach_suits {report : Option Mismatch} (report' : Option Mismatch) (es : List Expr)
    {w : Arenas} {es₁ : List Expr} {demands : List Demand} {ts : List TypeId} {a c : TypeArena}
    {goals : List (Option TypeId)} (hw : w.Sound) (hes : Arenas.expr.list.rel w es es)
    (hnames : Expr.EveryOf (Expr.NamesDistinct w.vars) es) (hdemands : ∀ d ∈ demands, d = none)
    (h : Expr.ChecksEach w.vars report es demands w.types es₁ (.ok ts) a) (hac : a.Extends c)
    (hc : c.Grounded) (hgoals : List.Forall₂ (Suits c) goals ts) :
    ∃ es₂ ts' b, Expr.ChecksEach w.vars report' es (goals.map (·.bind demandOf)) c es₂ (.ok ts') b ∧
      c.Extends b ∧ b.Grounded ∧ List.Forall₂ (Suits b) goals ts' := by
  cases es with
  | nil =>
    cases h
    cases hgoals
    exact ⟨[], [], c, .nil, .refl c, hc, .nil⟩
  | cons e es =>
    have hhead : demands.headD none = none := by
      cases demands with
      | nil => rfl
      | cons d ds => exact hdemands d List.mem_cons_self
    have hrest : ∀ d ∈ demands.tail, d = none := fun d hd => hdemands d (List.mem_of_mem_tail hd)
    cases hes with
    | cons he hes =>
      cases h with
      | cons h _ heach hfound =>
        obtain ⟨ts, rfl, rfl⟩ := ok_of_map hfound
        rw [hhead] at h
        cases hgoals with
        | cons hgoal hgoals =>
          obtain ⟨hle, hw₁, -, -⟩ := h.sound hw he .none
          have hes := Arenas.expr.list.mono hle hes
          obtain ⟨hle₂, -, -, -⟩ := heach.sound hw₁ hes
            (List.forall₂_same.2 fun d hd => hrest d hd ▸ .none)
          obtain ⟨_, t', c₁, hagain, hcc₁, hc₁, hsuits⟩ :=
            check_suits e hw he hnames.1 h (hle₂.1.trans hac) hc hgoal
          obtain ⟨_, ts', b, hagain', hc₁b, hb, hsuits'⟩ := checkEach_suits report' es hw₁ hes
            hnames.2 hrest heach (hac.trans hcc₁) hc₁ (hgoals.imp fun _ _ h => h.extends hc hcc₁)
          exact ⟨_, _, b, .cons hagain (hsuits.mismatch? ..) hagain' rfl, hcc₁.trans hc₁b, hb,
            .cons (hsuits.extends hc₁ hc₁b) hsuits'⟩

end

/-- **An expression whose type meets a demand is accepted with the demand.** -/
theorem check_with_demand {w : Arenas} {e e₁ : Expr} {t wanted : TypeId} {a : TypeArena}
    (hw : w.Sound) (he : Arenas.expr.rel w e e) (hnames : e.Every (Expr.NamesDistinct w.vars))
    (hwanted : w.types.Tidy wanted) (hany : wanted.isAny = false)
    (h : e.Checks w.vars none w.types e₁ (.ok t) a) (htaken : a.compatible wanted t = true) :
    ∃ e₂ t' b, e.Checks w.vars (some wanted) w.types e₂ (.ok t') b ∧
      b.compatible wanted t' = true := by
  obtain ⟨hle, hw₁, -, hfound⟩ := h.sound hw he .none
  have hgoal : Suits a (some wanted) t := by
    refine ⟨hfound.of_ok.2, fun g hg => ?_⟩
    obtain rfl := Option.some.inj hg
    exact ⟨hwanted.extends hw.grounded hle.1, htaken⟩
  obtain ⟨e₂, t₂, b₂, hbehind, -, -, hsuits⟩ :=
    check_suits e hw he hnames h (.refl a) hw₁.grounded hgoal
  rw [show (some wanted).bind demandOf = some wanted from demandOf_eq_some_iff.2 ⟨hany, rfl⟩]
    at hbehind
  -- what is found behind the check without a demand is found in its stead
  obtain ⟨e', found, b, hstead⟩ := e.checks_total (some wanted) w.types
  obtain ⟨u, _, _, _, hgrown, hr, hu, hmatches⟩ :=
    check_grown hw he (.some ⟨rfl, hwanted.holds⟩) hw₁.grounded.toCanonical hle.1 hstead
  cases hbehind.run.symm.trans hgrown.run
  cases hr with
  | @ok t' _ hmaps =>
    have hsame := Renaming.types.mono hu (TypeArena.keeping_maps_iff.2 ⟨rfl, hwanted.holds⟩)
    refine ⟨e', t', b, hstead, ?_⟩
    rw [hmatches.alike.compatible_eq hsame hmaps]
    exact (hsuits.taken wanted rfl).2

end TypedLua
