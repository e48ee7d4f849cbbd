import Mathlib.Data.List.Nodup
import TypedLua.Proofs.Session.Mirror
import TypedLua.Proofs.Typing.Retracing

/-!
# Typing.Leaves

Checking statement by statement.  The leaves of a module are its statements in source order, blocks
and exports opened and imports left out.  Checking the module comes to checking its leaves one after
the other; and since a statement is checked the same way in every arena that holds its types, each
leaf fares as it would alone.

Main statements: `moduleCheck_leaves`, checking a module and its leaves is the same, and
`checkAll_composed`, leaves fare as they would alone.
-/

namespace TypedLua

open Text Typing

/-! ## Leaves -/

variable {config : Config} {vars : VariableArena}

section

variable {ms ms' ns ns' : List Stmt} {found : Except Fault Unit} {f : Fault} {a b c : TypeArena}

theorem Stmt.Checks.single {m m' : Stmt} (h : m.Checks config vars a m' found b) :
    Stmt.ChecksAll config vars [m] a [m'] found b := by
  cases found with
  | error f => exact .fault h
  | ok _ => exact .cons h .nil

theorem Stmt.ChecksAll.append_error (h : Stmt.ChecksAll config vars ms a ms' (.error f) b) :
    Stmt.ChecksAll config vars (ms ++ ns) a (ms' ++ ns) (.error f) b := by
  induction ms generalizing ms' a with
  | nil => cases h
  | cons m ms ih =>
    cases h with
    | fault h => exact .fault h
    | cons h hall => exact .cons h (ih hall)

theorem Stmt.ChecksAll.append_ok (h : Stmt.ChecksAll config vars ms a ms' (.ok ()) b)
    (hns : Stmt.ChecksAll config vars ns b ns' found c) :
    Stmt.ChecksAll config vars (ms ++ ns) a (ms' ++ ns') found c := by
  induction ms generalizing ms' a with
  | nil =>
    cases h
    exact hns
  | cons m ms ih =>
    cases h with
    | cons h hall => exact .cons h (ih hall)

end

mutual

/-- Checking a statement checks its leaves in order. -/
theorem Stmt.Checks.leaves {m m' : Stmt} {found : Except Fault Unit} {a b : TypeArena} :
    m.Checks config vars a m' found b → Stmt.ChecksAll config vars m.leaves a m'.leaves found b
  | .plain hplain => by
    cases m with
    | externVariable | externFunction => exact (Stmt.Checks.plain rfl).single
    | imports => exact .nil
    | _ => cases hplain
  | .expression h hfound => (Stmt.Checks.expression h hfound).single
  | .imbalanced hfault => (Stmt.Checks.imbalanced hfault).single
  | .locals hfault h hfound => (Stmt.Checks.locals hfault h hfound).single
  | .exportExpr h => (Stmt.Checks.exportExpr h).single
  | .exportStmt h =>
    have ih := h.leaves
    ih
  | .block h => h.leaves

theorem Stmt.ChecksAll.leaves {ms ms' : List Stmt} {found : Except Fault Unit}
    {a b : TypeArena} : Stmt.ChecksAll config vars ms a ms' found b →
      Stmt.ChecksAll config vars (Stmt.leavesOf ms) a (Stmt.leavesOf ms') found b
  | .nil => .nil
  | .fault h => h.leaves.append_error
  | .cons h hall => h.leaves.append_ok hall.leaves

end

/-- **Checking a module checks its leaves in order.** -/
theorem moduleCheck_leaves {m m' : Module} {found : Except Fault Unit} {a b : TypeArena}
    (h : m.check config vars a = ((m', found), b)) :
    Stmt.checkAll config vars m.leaves a = ((m'.leaves, found), b) := by
  obtain ⟨body, hall, rfl⟩ := Module.check_iff.1 h
  obtain ⟨file, ms, scope, span⟩ := m
  exact hall.leaves.run

/-! ## Statements in a larger arena -/

/-- The renaming by which every type of an arena keeps its id. -/
def TypeArena.keeping (a : TypeArena) : Renaming := ⟨(List.range a.size).map TypeId.mk⟩

theorem TypeArena.keeping_maps_iff {a : TypeArena} {x y : TypeId} :
    a.keeping.Maps x y ↔ x = y ∧ a.Holds x := by
  show ((List.range a.size).map TypeId.mk)[x.index]? = some y ↔ _
  rw [List.getElem?_map]
  constructor
  · intro h
    obtain ⟨i, hi, rfl⟩ := Option.map_eq_some_iff.1 h
    obtain ⟨hlt, heq⟩ := List.getElem?_eq_some_iff.1 hi
    rw [List.length_range] at hlt
    rw [List.getElem_range] at heq
    rw [← heq]
    exact ⟨rfl, hlt⟩
  · intro h
    obtain ⟨rfl, hx⟩ := h
    rw [List.getElem?_range hx]
    rfl

theorem TypeArena.keeping_matches {a b : TypeArena} (ha : a.Grounded) (hb : b.Canonical)
    (hab : a.Extends b) : a.keeping.Matches a b where
  left := ha
  right := hb
  length := by simp [keeping]
  distinct := by
    have hinj : Function.Injective TypeId.mk := fun i j h => TypeId.mk.inj h
    exact List.Nodup.map hinj List.nodup_range
  primitive p := keeping_maps_iff.2 ⟨rfl, ha.holds_primitive p⟩
  embeds x y hxy := by
    obtain ⟨s, t, hs, ht, hst⟩ := (ha.alike hab).embeds x y (keeping_maps_iff.1 hxy)
    exact ⟨s, t, hs, ht, hst.mono fun u v huv => keeping_maps_iff.2 huv⟩

variable {w v : Arenas}

/-- Ids that match have the same structure. -/
theorem Renaming.Matches.sameStructure {u : Renaming} {a b : TypeArena} (h : u.Matches a b)
    {x y : TypeId} (hxy : u.Maps x y) : TypeArena.SameStructure a b x y := by
  obtain ⟨hx, hy⟩ := h.embeds.holds hxy
  exact ⟨hx, hy, h.alike.unfold_eq hxy⟩

theorem Arenas.Sound.keeping_variables (hw : w.Sound) :
    VariablesMatch Renaming.types Link.same w.types.keeping w.vars w.vars := by
  constructor
  · intro u x y hle hxy
    obtain rfl : x = y := hxy
    have hmaps := TypeArena.keeping_maps_iff.2 ⟨rfl, hw.holds_typeOf x⟩
    exact Renaming.types.mono hle hmaps
  · intro u x y _ hxy
    rw [show x = y from hxy]

/-- In a larger arena a statement is checked with types of the same structure. -/
theorem stmtCheck_grown {m y m' : Stmt} {found found' : Except Fault Unit} {a b c : TypeArena}
    (hw : w.Sound) (hm : Arenas.stmt.rel w m m) (hc : c.Canonical) (hle : w.types.Extends c)
    (h : m.check config w.vars w.types = ((y, found), a))
    (h' : m.check config w.vars c = ((m', found'), b)) :
    found' = found ∧ Stmt.Rel (TypeArena.SameStructure a b) Eq y m' := by
  have hself : (Link.stmt .all Renaming.types Link.same).rel w.types.keeping m m :=
    hm.mono (fun x y hxy => TypeArena.keeping_maps_iff.2 hxy) fun x y hxy => hxy.1
  obtain ⟨u, -, hr, hu⟩ := inStep_stmtCheck matches_inStep config m hw.keeping_variables hself
    w.types c (TypeArena.keeping_matches hw.grounded hc hle)
  rw [h, h'] at hr hu
  obtain ⟨hstmt, hfound⟩ := hr
  refine ⟨?_, hstmt.mono (fun x y hxy => hu.sameStructure hxy) fun x y hxy => hxy⟩
  cases hfound with
  | ok _ => rfl
  | error _ hplace => rw [show _ = _ from hplace]

/-! ## Leaves one after the other -/

/-- How leaves fare when they are checked one after the other, compared with checking each alone in
the arena `a`: those up to a first refused one are annotated as they would be alone, with types of
the arena `c`, and those behind it are left as they were. -/
inductive Composed (config : Config) (vars : VariableArena) (a c : TypeArena) :
    List Stmt → List Stmt → Except Fault Unit → Prop
  | nil : Composed config vars a c [] [] (.ok ())
  | refused {m y m' : Stmt} {f : Fault} {b : TypeArena} (ms : List Stmt) :
      m.check config vars a = ((y, .error f), b) →
      Stmt.Rel (TypeArena.SameStructure b c) Eq y m' →
        Composed config vars a c (m :: ms) (m' :: ms) (.error f)
  | accepted {m y m' : Stmt} {ms ms' : List Stmt} {found : Except Fault Unit} {b : TypeArena} :
      m.check config vars a = ((y, .ok ()), b) →
      Stmt.Rel (TypeArena.SameStructure b c) Eq y m' →
      Composed config vars a c ms ms' found →
        Composed config vars a c (m :: ms) (m' :: ms') found

/-- Statements in a row are annotated as each is alone. -/
theorem checkAll_composed (hw : w.Sound) {c : TypeArena} (ms : List Stmt) {v : Arenas}
    {ms' : List Stmt} {found : Except Fault Unit} {b : TypeArena} (hv : v.Sound) (hwv : w ≤ v)
    (hvars : v.vars = w.vars) (hms : Arenas.stmt.list.rel w ms ms)
    (h : Stmt.checkAll config w.vars ms v.types = ((ms', found), b)) (hbc : b.Extends c) :
    Composed config w.vars w.types c ms ms' found := by
  rw [← hvars, Stmt.checksAll_iff] at h
  induction ms generalizing ms' v with
  | nil =>
    cases h
    exact .nil
  | cons m ms ih =>
    cases hms with
    | cons hm hms =>
      -- what is annotated now has the same structure in the arena at the end
      have hlater : ∀ {m' found b₁}, m.Checks config v.vars v.types m' found b₁ →
          b₁.Extends c → ∃ y a, m.check config w.vars w.types = ((y, found), a) ∧
            Stmt.Rel (TypeArena.SameStructure a c) Eq y m' := by
        intro m' found b₁ h hb₁
        obtain ⟨⟨⟨y, foundAlone⟩, a⟩, halone⟩ : ∃ r, m.check config w.vars w.types = r := ⟨_, rfl⟩
        obtain ⟨-, hv₁, -⟩ := h.sound hv (Arenas.stmt.mono hwv hm)
        have hrun := h.run
        rw [hvars] at hrun
        obtain ⟨rfl, hstmt⟩ := stmtCheck_grown hw hm hv.grounded.toCanonical hwv.1 halone hrun
        refine ⟨y, a, halone, hstmt.mono (fun x y hxy => ?_) fun x y hxy => hxy⟩
        have hunfold := hv₁.grounded.unfold_extends hb₁ hxy.right
        exact ⟨hxy.left, hb₁.holds hxy.right, hxy.unfold_eq.trans hunfold.symm⟩
      cases h with
      | fault h =>
        obtain ⟨y, a, halone, hstmt⟩ := hlater h hbc
        exact .refused ms halone hstmt
      | cons h hall =>
        obtain ⟨hle, hv₁, -⟩ := h.sound hv (Arenas.stmt.mono hwv hm)
        obtain ⟨hle₂, -⟩ := hall.sound hv₁ (Arenas.stmt.list.mono (le_trans hwv hle) hms)
        obtain ⟨y, a, halone, hstmt⟩ := hlater h (hle₂.1.trans hbc)
        exact .accepted halone hstmt (ih hv₁ (le_trans hwv hle) hvars hms hall)

end TypedLua
