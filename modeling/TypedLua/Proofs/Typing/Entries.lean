import TypedLua.Proofs.Types.Inhabitants
import TypedLua.Proofs.Types.Interning
import TypedLua.Proofs.Typing.Retracing

/-!
# Typing.Entries

Table constructors against the type that is declared for them.  The entries of a constructor make a
table, and it is that table which has to fit the declared one: each declared property is compared
with the first entry of its name.  A constructor becomes an interface only if the context wants that
interface, so that the same holds where an interface is declared.

Main statements: `Grounded.respects_of_compatible`, a table that is taken where another is declared
respects its properties, and `Met.respects`, so does every constructor that meets its demand.
-/

namespace TypedLua

open Text Typing

/-! ## Entries and properties -/

/-- The entries of a constructor, which may stand in parentheses. -/
def Expr.entries? : Expr → Option (List Expr)
  | .constructor entries _ => some entries
  | .group inner _ => inner.entries?
  | _ => none

theorem Expr.isSome_entries?_untyped (e : Expr) :
    e.untyped.entries?.isSome = e.entries?.isSome := by
  fun_induction Expr.entries? e with
  | case1 => rfl
  | case2 inner tag ih => exact ih
  | case3 e hconstructor hgroup =>
    cases e with
    | constructor entries tag => exact absurd rfl (hconstructor entries tag)
    | group inner tag => exact absurd rfl (hgroup inner tag)
    | _ => rfl

/-- The entries of a constructor respect the declared properties. -/
structure Respects (a : TypeArena) (vars : VariableArena) (properties : List Property)
    (entries : List Expr) : Prop where
  /-- The first entry of a name is taken where the first property of that name is declared. -/
  first {before after : List Expr} {id : VariableId} {value : Expr} {tag : Tag} :
    entries = before ++ .entry id value tag :: after →
    vars.nameOf id ∉ entryNames vars before →
    ∀ p, findProperty properties (vars.nameOf id) = some p →
      a.compatible p.type value.type = true
  /-- The only entry of a name is taken where any property of that name is declared. -/
  only {before after : List Expr} {id : VariableId} {value : Expr} {tag : Tag} :
    entries = before ++ .entry id value tag :: after →
    vars.nameOf id ∉ entryNames vars before → vars.nameOf id ∉ entryNames vars after →
    ∀ p ∈ properties, p.name = vars.nameOf id → a.compatible p.type value.type = true

theorem Respects.nil (a : TypeArena) (vars : VariableArena) (entries : List Expr) :
    Respects a vars [] entries := by
  constructor
  · intro before after id value tag _ _ p hp
    cases hp
  · intro before after id value tag _ _ _ p hp
    cases hp

variable {x y : TypeId} {entries : List Expr} {ps : List Property} {types : List TypeId}

theorem Respects.of_bare {a : TypeArena} {vars : VariableArena} {properties : List Property}
    (h : ¬ entries.any Expr.isEntry = true) : Respects a vars properties entries := by
  constructor
  · rintro before after id value tag rfl
    exact absurd (by simp [Expr.isEntry]) h
  · rintro before after id value tag rfl
    exact absurd (by simp [Expr.isEntry]) h

section

variable {vars : VariableArena} {before after : List Expr} {id : VariableId} {value : Expr}
  {tag : Tag}

theorem entryProperties_append (xs ys : List Expr) :
    entryProperties vars (xs ++ ys) = entryProperties vars xs ++ entryProperties vars ys :=
  List.filterMap_append

theorem mem_entryNames {p : Property} (h : p ∈ entryProperties vars entries) :
    p.name ∈ entryNames vars entries := by
  obtain ⟨e, he, hp⟩ := List.mem_filterMap.1 h
  refine List.mem_filterMap.2 ⟨e, he, ?_⟩
  cases e with
  | entry id value tag =>
    cases hp
    rfl
  | _ => cases hp

theorem entryProperties_parts :
    entryProperties vars (before ++ .entry id value tag :: after) =
      entryProperties vars before ++ ⟨vars.nameOf id, tag.type, false⟩ ::
        entryProperties vars after :=
  entryProperties_append _ _

/-- The first entry of a name makes the property. -/
theorem findProperty_entryProperties (hbefore : vars.nameOf id ∉ entryNames vars before) :
    findProperty (entryProperties vars (before ++ .entry id value tag :: after)) (vars.nameOf id) =
      some ⟨vars.nameOf id, tag.type, false⟩ := by
  have hnone : findProperty (entryProperties vars before) (vars.nameOf id) = none := by
    refine List.find?_eq_none.2 fun p hp hname => hbefore ?_
    rw [← beq_iff_eq.1 hname]
    exact mem_entryNames hp
  unfold findProperty at hnone ⊢
  rw [entryProperties_parts, List.find?_append, hnone]
  simp

theorem eq_of_mem_entryProperties (hbefore : vars.nameOf id ∉ entryNames vars before)
    (hafter : vars.nameOf id ∉ entryNames vars after) {p : Property}
    (hp : p ∈ entryProperties vars (before ++ .entry id value tag :: after))
    (hname : p.name = vars.nameOf id) : p.type = tag.type := by
  rw [entryProperties_parts] at hp
  rcases List.mem_append.1 hp with hp | hp
  · exact absurd (hname ▸ mem_entryNames hp) hbefore
  · rcases List.mem_cons.1 hp with rfl | hp
    · rfl
    · exact absurd (hname ▸ mem_entryNames hp) hafter

end

namespace TypeArena

variable {a : TypeArena}

theorem Grounded.compatible_tables (ha : a.Grounded) {qs : List Property}
    (hx : a.get? x = some (.table ps)) (hy : a.get? y = some (.table qs))
    (h : a.compatible x y = true) :
    ps = qs ∨ ∀ p ∈ ps, ∀ q, findProperty qs p.name = some q →
      a.compatible p.type q.type = true := by
  unfold compatible compatibleWithin at h
  rw [hx, hy, Bool.or_eq_true] at h
  rcases h with hsame | htakes
  · rw [beq_iff_eq.1 hsame, hy] at hx
    cases hx
    exact .inl rfl
  · refine .inr fun p hp q hq => ?_
    have hpart : a.compatibleWithin (a.size * a.size) p.type q.type = true := by
      have hone := List.all_eq_true.1 htakes p hp
      rw [hq] at hone
      exact hone
    have hpheld := ha.holds_part hx (List.mem_map_of_mem hp)
    have hqheld := ha.holds_part hy (List.mem_map_of_mem (findProperty_mem hq).1)
    -- a property is older than its table, so fewer layers are enough to compare it
    have hsize : p.type.index < a.size := hpheld
    have hsquare : a.size ≤ a.size * a.size := Nat.le_mul_self _
    rwa [ha.compatibleWithin_eq hpheld hqheld (by omega)] at hpart

theorem not_compatible_of_interface {name : String} {generics : List TypeId} {qs : List Property}
    (hx : a.get? x = some (.interface name generics ps)) (hy : a.get? y = some (.table qs)) :
    a.compatible x y = false := by
  have hne : x ≠ y := by
    rintro rfl
    rw [hx] at hy
    cases hy
  unfold compatible compatibleWithin
  rw [hx, hy, Bool.or_eq_false_iff]
  exact ⟨beq_eq_false_iff_ne.2 hne, rfl⟩

/-- Entries of a table that is taken respect the properties. -/
theorem Grounded.respects_of_compatible (ha : a.Grounded) {vars : VariableArena}
    (hx : a.get? x = some (.table ps))
    (hy : a.get? y = some (.table (entryProperties vars entries)))
    (hentries : Expr.EveryOf (Expr.Consistent a vars) entries) (h : a.compatible x y = true) :
    Respects a vars ps entries := by
  have htag : ∀ id value tag, .entry id value tag ∈ entries → tag.type = value.type :=
    fun id value tag hmem => (Expr.everyOf_iff.1 hentries _ hmem).1
  rcases ha.compatible_tables hx hy h with rfl | hparts
  · constructor
    · rintro before after id value tag rfl hbefore p hp
      rw [findProperty_entryProperties hbefore] at hp
      cases hp
      rw [← htag id value tag (by simp)]
      exact a.compatible_self _
    · rintro before after id value tag rfl hbefore hafter p hp hname
      rw [eq_of_mem_entryProperties hbefore hafter hp hname, ← htag id value tag (by simp)]
      exact a.compatible_self _
  · have hfits : ∀ before after id value tag, entries = before ++ .entry id value tag :: after →
        vars.nameOf id ∉ entryNames vars before → ∀ p ∈ ps, p.name = vars.nameOf id →
        a.compatible p.type value.type = true := by
      rintro before after id value tag rfl hbefore p hp hname
      have hfound : findProperty (entryProperties vars (before ++ .entry id value tag :: after))
          (vars.nameOf id) = some ⟨vars.nameOf id, tag.type, false⟩ :=
        findProperty_entryProperties hbefore
      rw [← hname] at hfound
      rw [← htag id value tag (by simp)]
      exact hparts p hp _ hfound
    constructor
    · intro before after id value tag hsplit hbefore p hp
      obtain ⟨hmem, hname⟩ := findProperty_mem hp
      exact hfits before after id value tag hsplit hbefore p hmem hname
    · intro before after id value tag hsplit hbefore _ p hp hname
      exact hfits before after id value tag hsplit hbefore p hp hname

end TypeArena

/-! ## Interfaces -/

section

variable {a b c : TypeArena} {vars : VariableArena} {demand : Demand} {t : TypeId} {name : String}
  {generics : List TypeId} {properties : List Property}

/-- A table is of an interface only if this is demanded. -/
theorem tableResult_demanded {wanted : Option Shape} {names : List String}
    (h : tableResult demand wanted names types b = (t, c))
    (ht : c.get? t = some (.interface name generics properties)) : demand = some t := by
  obtain ⟨table, b₁, htable, h⟩ := run_bind h
  have hget : b₁.get? table = some (.table _) := TypeArena.get?_of_intern htable
  split at h
  · obtain ⟨shape, b₂, hshape, h⟩ := run_bind h
    obtain ⟨_, _, hread, h⟩ := run_bind h
    cases hread
    split at h
    · cases h
      rfl
    · cases h
      rw [(TypeArena.extends_of_intern hshape).get? hget] at ht
      cases ht
  · cases h
    rw [hget] at ht
    cases ht

/-- So is a constructor. -/
theorem Planned.demanded {plan : ConstructorPlan} (hplan : Planned a vars demand entries plan)
    (hc : c.Canonical) (h : plan.result types b = (t, c))
    (ht : c.get? t = some (.interface name generics properties)) : demand = some t := by
  cases hplan with
  | empty _ hdemand _ | wanted _ hdemand _ =>
    cases h
    exact hdemand
  | unknown =>
    cases h
    rw [hc.primitive] at ht
    cases ht
  | table => exact tableResult_demanded h ht
  | array =>
    rw [TypeArena.get?_of_intern h] at ht
    cases ht

end

theorem Expr.Checks.demanded {w : Arenas} {e e' : Expr} {demand : Demand} {t : TypeId}
    {b : TypeArena} {name : String} {generics : List TypeId} {properties : List Property}
    (h : e.Checks w.vars demand w.types e' (.ok t) b) (hw : w.Sound)
    (he : Arenas.expr.rel w e e) (hd : Arenas.typeIds.option.rel w demand demand)
    (hentries : e.entries?.isSome)
    (ht : b.get? t = some (.interface name generics properties)) : demand = some t := by
  have hb : b.Canonical := (h.sound hw he hd).2.1.grounded.toCanonical
  fun_induction Expr.entries? e generalizing e' with
  | case1 entries tag =>
    cases h with
    | plain hplain => cases hplain
    | constructor hplan _ hresult => exact (planned_of_ok hplan).demanded hb hresult ht
  | case2 inner tag ih =>
    cases he with
    | group he _ =>
      cases h with
      | plain hplain => cases hplain
      | group h _ => exact ih h he hentries
  | case3 => cases hentries

/-! ## Demands that are met -/

/-- The expression was checked with success against the demand. -/
structure Met (a : TypeArena) (vars : VariableArena) (demand : Demand) (e : Expr) : Prop where
  every : e.Every (Expr.Consistent a vars)
  /-- It is taken where the wanted type is declared. -/
  taken : ∀ wanted ∈ demand, a.compatible wanted e.type = true
  /-- A constructor is an interface only if it is wanted. -/
  demanded {name : String} {generics : List TypeId} {properties : List Property} :
    e.entries?.isSome → a.get? e.type = some (.interface name generics properties) →
      demand = some e.type

section

variable {w v : Arenas} {demand : Demand} {e : Expr}

theorem Met.mono {vars : VariableArena} (h : Met w.types vars demand e) (hw : w.Sound)
    (hwv : w ≤ v) (he : Arenas.expr.rel w e e) (hd : Arenas.typeIds.option.rel w demand demand) :
    Met v.types vars demand e where
  every := h.every.consistent_mono hw hwv he
  taken wanted hwanted := by
    rw [Option.mem_def.1 hwanted] at hd
    cases hd with
    | some hheld =>
      rw [hw.grounded.compatible_eq hwv.1 hheld.2 he.type.2]
      exact h.taken wanted hwanted
  demanded hentries ht := by
    rw [hwv.1.get?_eq he.type.2] at ht
    exact h.demanded hentries ht

/-- An accepted expression meets its demand. -/
theorem Expr.Checks.met {report : Option Mismatch} {e' : Expr} {t : TypeId} {b : TypeArena}
    {span : Span} (h : e.Checks w.vars demand w.types e' (.ok t) b) (hreport : report.isSome)
    (hw : w.Sound) (he : Arenas.expr.rel w e e) (hd : Arenas.typeIds.option.rel w demand demand)
    (hmismatch : mismatch? b report demand t span = none) : Met b w.vars demand e' := by
  have hchecked := h.consistent hw he hd
  refine ⟨hchecked.every, fun wanted hwanted => ?_, fun hentries ht => ?_⟩
  · rw [hchecked.type]
    rw [Option.mem_def.1 hwanted] at hmismatch
    exact compatible_of_mismatch? hreport hmismatch
  · rw [hchecked.type] at ht ⊢
    rw [← e'.isSome_entries?_untyped, h.untyped, e.isSome_entries?_untyped] at hentries
    exact h.demanded hw he hd hentries ht

theorem Expr.ChecksEach.met {report : Option Mismatch} (hreport : report.isSome)
    {es es' : List Expr} {w : Arenas} {demands : List Demand} {ts : List TypeId} {b : TypeArena}
    (h : Expr.ChecksEach w.vars report es demands w.types es' (.ok ts) b) (hw : w.Sound)
    (hes : Arenas.expr.list.rel w es es) (hd : Arenas.typeIds.option.list.rel w demands demands) :
    ∀ p ∈ demands.zip es', Met b w.vars p.1 p.2 := by
  induction es generalizing es' w demands ts with
  | nil =>
    cases h
    simp
  | cons e es ih =>
    cases hd with
    | nil => simp
    | cons hdemand hd =>
      cases hes with
      | cons he hes =>
        cases h with
        | cons h hmismatch heach hfound =>
          obtain ⟨ts, rfl, -⟩ := ok_of_map hfound
          obtain ⟨hle, hw₁, he', -⟩ := h.sound hw he hdemand
          have hes := Arenas.expr.list.mono hle hes
          have hd := Arenas.typeIds.option.list.mono hle hd
          obtain ⟨hle₂, -, -, -⟩ := heach.sound hw₁ hes hd
          have hfirst := h.met hreport hw he hdemand hmismatch
          have hothers := ih heach hw₁ hes hd
          have hdemand := Arenas.typeIds.option.mono hle hdemand
          intro p hp
          rcases List.mem_cons.1 hp with rfl | hp
          · exact Met.mono (w := ⟨_, w.vars⟩) hfirst hw₁ hle₂ he' hdemand
          · exact hothers p hp

end

theorem fitsTable_of_consistent {a : TypeArena} {vars : VariableArena} {e : Expr}
    (h : e.Every (Expr.Consistent a vars)) (hentries : e.entries? = some entries)
    (hnamed : entries.any Expr.isEntry = true) :
    a.FitsTable (entryProperties vars entries) e.type ∧
      Expr.EveryOf (Expr.Consistent a vars) entries := by
  fun_induction Expr.entries? e with
  | case1 es tag =>
    cases hentries
    refine ⟨?_, h.2⟩
    rcases h.1 with ⟨-, hfits⟩ | ⟨hbare, -⟩ | ⟨rfl, -⟩
    · exact hfits
    · exact absurd hnamed hbare
    · cases hnamed
  | case2 inner tag ih =>
    have htype : (Expr.group inner tag).type = inner.type := h.1
    rw [htype]
    exact ih h.2 hentries
  | case3 => cases hentries

/-- Entries that meet a declared type respect its properties. -/
theorem Met.respects {a : TypeArena} {vars : VariableArena} {declared : TypeId} {e : Expr}
    {shape : Shape} (ha : a.Grounded) (h : Met a vars (demandOf declared) e)
    (hdeclared : a.get? declared = some shape) (hentries : e.entries? = some entries) :
    Respects a vars shape.properties entries := by
  by_cases hnamed : entries.any Expr.isEntry = true
  · obtain ⟨⟨table, htable, htype⟩, heach⟩ := fitsTable_of_consistent h.every hentries hnamed
    have hdemand : (∀ p, shape ≠ .primitive p) → demandOf declared = some declared := by
      intro hshape
      refine if_neg fun hany => hshape .any ?_
      rw [eq_any_of_isAny hany] at hdeclared
      exact Option.some.inj (hdeclared.symm.trans (ha.primitive .any))
    have hsame : ∀ {name generics properties}, (∀ p, shape ≠ .primitive p) →
        a.get? e.type = some (.interface name generics properties) → e.type = declared := by
      intro name generics properties hshape htype
      have hwanted := h.demanded (by rw [hentries]; rfl) htype
      rw [hdemand hshape] at hwanted
      exact (Option.some.inj hwanted).symm
    cases shape with
    | table ps =>
      rcases htype with htype | ⟨name, generics, wanted, shape, htype, -, -⟩
      · have htaken := h.taken declared (hdemand nofun)
        rw [htype] at htaken
        exact ha.respects_of_compatible hdeclared htable heach htaken
      · rw [hsame nofun htype, hdeclared] at htype
        cases htype
    | interface name generics ps =>
      rcases htype with htype | ⟨_, _, wanted, shape, htype, hshape, hfits⟩
      · -- a table is never taken where an interface is declared
        have htaken := h.taken declared (hdemand nofun)
        rw [htype, TypeArena.not_compatible_of_interface hdeclared htable] at htaken
        cases htaken
      · rw [hsame nofun htype, hdeclared] at htype
        cases htype
        exact ha.respects_of_compatible hshape htable heach hfits
    | _ => exact .nil a vars entries
  · exact .of_bare hnamed

end TypedLua
