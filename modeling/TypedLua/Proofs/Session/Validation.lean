import TypedLua.Proofs.Session.Validated
import TypedLua.Proofs.Typing.Leaves

/-!
# Session.Validation

Validating a module twice, and statement by statement.  A second validation retraces the first.  A
module is accepted if each of its leaves is accepted alone; otherwise the first leaf that is refused
alone decides what is reported, and where annotating ends.

Main statements: `validate_idempotent` and `validate_compositional`.
-/

namespace TypedLua.Session

open Text

variable {s : Session} {ms : List Module} {m m' : Module} {types : TypeArena}
variable {f : Fault} {xs : List Stmt} {found : Except Fault Unit}

/-- A module that passes leaves no trace but types. -/
theorem validate_of_ok (h : m.check s.config s.vars s.types = ((m', .ok ()), types)) :
    validate m s = ((true, m'), { s with types }) := by
  rw [validate_apply, h]
  rfl

/-- One that does not is reported. -/
theorem validate_of_error (h : m.check s.config s.vars s.types = ((m', .error f), types)) :
    validate m s = ((false, m'), report { s with types } m'.file f.diagnostic) := by
  rw [validate_apply, h]
  rfl

/-! ## Twice -/

/-- **Validation is idempotent.**  Whatever calls led to the session, validating a module a second
time gives the same verdict and the same module, annotations and completed values included, and adds
no type; what the first validation reported, if anything, is reported once more. -/
theorem validate_idempotent (h : Reached s ms) (hm : m ∈ ms) :
    let first := validate m s
    let second := validate first.1.2 first.2
    second.1 = first.1 ∧ second.2.types = first.2.types ∧
      ∃ fault : Option Diagnostic, first.1.1 = fault.isNone ∧
        first.2.reported = s.reported ++ fault.toList ∧
        second.2.reported = first.2.reported ++ fault.toList := by
  intro first second
  obtain ⟨w, hs, hms⟩ := h.holds
  obtain ⟨⟨⟨m', found⟩, types⟩, hcheck⟩ : ∃ r, m.check s.config s.vars s.types = r := ⟨_, rfl⟩
  have hagain : m'.check s.config s.vars types = ((m', found), types) := by
    rw [hs.types, hs.vars] at hcheck
    rw [hs.vars]
    exact moduleCheck_again s.config hs.toSound (hms m hm) hcheck
  cases found with
  | ok _ =>
    have hfirst : first = ((true, m'), { s with types }) := validate_of_ok hcheck
    have hsecond : second = ((true, m'), { s with types }) := by
      show validate first.1.2 first.2 = _
      rw [hfirst]
      exact validate_of_ok hagain
    rw [hsecond, hfirst]
    exact ⟨rfl, rfl, none, rfl, (List.append_nil _).symm, (List.append_nil _).symm⟩
  | error f =>
    have hfirst : first = ((false, m'), report { s with types } m'.file f.diagnostic) :=
      validate_of_error hcheck
    have hsecond : second = ((false, m'), report (report { s with types } m'.file f.diagnostic)
        m'.file f.diagnostic) := by
      show validate first.1.2 first.2 = _
      rw [hfirst]
      exact validate_of_error hagain
    rw [hsecond, hfirst]
    exact ⟨rfl, rfl, some f.diagnostic, rfl, rfl, rfl⟩

set_option maxRecDepth 4000 in
/-- A module whose first statements are annotated with new types, one of them completed with `nil`,
before a later one is refused. -/
theorem validate_idempotent_refused :
    let text := "extern print: (number) => void
do
  local point, rest = \x7b x = 1, y = \x7b true, false \x7d \x7d
end
print('a')
print(2)"
    ∃ m s, parse ⟨"/", []⟩ ⟨"twice.lua"⟩ text { config := { imbalancedLocals := true } } =
        (some m, s) ∧
      (validate m s).1.1 = false ∧ s.types.size < (validate m s).2.types.size ∧
      let first := validate m s
      let second := validate first.1.2 first.2
      second.1 = first.1 ∧ second.2.types = first.2.types := by
  intro text
  obtain ⟨m, s, hparse, hrefused, hgrown⟩ : ∃ m s,
      parse ⟨"/", []⟩ ⟨"twice.lua"⟩ text { config := { imbalancedLocals := true } } = (some m, s) ∧
      (validate m s).1.1 = false ∧ s.types.size < (validate m s).2.types.size :=
    exists_of_found (by rw [parse_ofList]; decide +kernel)
  obtain ⟨hsame, htypes, -⟩ := validate_idempotent (.of_parse hparse) List.mem_cons_self
  exact ⟨m, s, hparse, hrefused, hgrown, hsame, htypes⟩

/-! ## Statement by statement -/

theorem check_withStatements {config : Config} {vars : VariableArena} {ys : List Stmt}
    {a b : TypeArena} (m : Module) (h : Stmt.checkAll config vars xs a = ((ys, found), b)) :
    (m.withStatements xs).check config vars a = ((m.withStatements ys, found), b) :=
  Module.check_iff.2 ⟨ys, Stmt.checksAll_iff.1 h, rfl⟩

theorem check_alone {config : Config} {vars : VariableArena} {x y : Stmt} {a b : TypeArena}
    (m : Module) (h : x.check config vars a = ((y, found), b)) :
    (m.withStatements [x]).check config vars a = ((m.withStatements [y], found), b) :=
  check_withStatements m (Stmt.checks_iff.1 h).single.run

/-- Validating a leaf alone: the module holds nothing else, the session is the same. -/
def validateAlone (m : Module) (s : Session) (x : Stmt) : (Bool × Module) × Session :=
  validate (m.withStatements [x]) s

/-- A leaf `x'` of a validated module is annotated as `x` is when it is validated alone, with types
of the same structure. -/
def AnnotatedAsAlone (m : Module) (s : Session) (types : TypeArena) (x x' : Stmt) : Prop :=
  ∃ y, (validateAlone m s x).1.2.statements = [y] ∧
    Stmt.Rel (TypeArena.SameStructure (validateAlone m s x).2.types types) Eq y x'

section

variable {x y x' : Stmt} {b c : TypeArena}

theorem validateAlone_of_ok (h : x.check s.config s.vars s.types = ((y, .ok ()), b)) :
    validateAlone m s x = ((true, m.withStatements [y]), { s with types := b }) :=
  validate_of_ok (check_alone m h)

theorem validateAlone_of_error (h : x.check s.config s.vars s.types = ((y, .error f), b)) :
    validateAlone m s x =
      ((false, m.withStatements [y]), report { s with types := b } m.file f.diagnostic) :=
  validate_of_error (check_alone m h)

theorem annotatedAsAlone_of_check (h : x.check s.config s.vars s.types = ((y, found), b))
    (hrel : Stmt.Rel (TypeArena.SameStructure b c) Eq y x') : AnnotatedAsAlone m s c x x' := by
  refine ⟨y, ?_⟩
  cases found with
  | ok _ =>
    rw [validateAlone_of_ok h]
    exact ⟨rfl, hrel⟩
  | error f =>
    rw [validateAlone_of_error h]
    exact ⟨rfl, hrel⟩

end

/-- If all leaves pass together, each passes alone. -/
theorem accepted_of_composed {c : TypeArena} {xs' : List Stmt}
    (h : Composed s.config s.vars s.types c xs xs' (.ok ())) :
    (∀ x ∈ xs, (validateAlone m s x).1.1 = true) ∧
      List.Forall₂ (AnnotatedAsAlone m s c) xs xs' := by
  generalize hfound : Except.ok () = found at h
  induction h with
  | nil => exact ⟨fun x hx => (nomatch hx), .nil⟩
  | refused => cases hfound
  | accepted hcheck hrel _ ih =>
    obtain ⟨haccepted, hannotated⟩ := ih hfound
    refine ⟨?_, .cons (annotatedAsAlone_of_check hcheck hrel) hannotated⟩
    intro x hx
    rcases List.mem_cons.1 hx with rfl | hx
    · rw [validateAlone_of_ok hcheck]
    · exact haccepted x hx

/-- The first leaf that is refused alone is the one that is refused. -/
theorem refused_of_composed {c : TypeArena} {xs' : List Stmt}
    (h : Composed s.config s.vars s.types c xs xs' (.error f)) :
    ∃ before leaf after before' leaf', xs = before ++ leaf :: after ∧
      xs' = before' ++ leaf' :: after ∧
      (∀ x ∈ before, (validateAlone m s x).1.1 = true) ∧
      (validateAlone m s leaf).1.1 = false ∧
      (validateAlone m s leaf).2.reported = s.reported ++ [f.diagnostic] ∧
      List.Forall₂ (AnnotatedAsAlone m s c) before before' ∧
      AnnotatedAsAlone m s c leaf leaf' := by
  generalize hfound : Except.error f = found at h
  induction h with
  | nil => cases hfound
  | @refused x y x' _ b xs hcheck hrel =>
    cases hfound
    refine ⟨[], x, xs, [], x', rfl, rfl, fun x hx => (nomatch hx), ?_, ?_, .nil, ?_⟩
    · rw [validateAlone_of_error hcheck]
    · rw [validateAlone_of_error hcheck]
      rfl
    · exact annotatedAsAlone_of_check hcheck hrel
  | @accepted x y x' xs xs' _ b hcheck hrel _ ih =>
    obtain ⟨before, leaf, after, before', leaf', rfl, rfl, haccepted, hrefused, hreported,
      hannotated, hleaf⟩ := ih hfound
    refine ⟨x :: before, leaf, after, x' :: before', leaf', rfl, rfl, ?_, hrefused, hreported,
      .cons (annotatedAsAlone_of_check hcheck hrel) hannotated, hleaf⟩
    intro z hz
    rcases List.mem_cons.1 hz with rfl | hz
    · rw [validateAlone_of_ok hcheck]
    · exact haccepted z hz

/-- **Validation is compositional, and the first error wins.**  Whatever calls led to the session, a
module is accepted exactly if each of its leaves is accepted alone, and then each is annotated as it
is alone.  Otherwise one diagnostic is reported, the one that the first refused leaf gives alone; the
leaves up to it are annotated as they are alone, and those behind it are left unchanged. -/
theorem validate_compositional (h : Reached s ms) (hm : m ∈ ms) :
    let whole := validate m s
    (whole.1.1 = true ↔ ∀ x ∈ m.leaves, (validateAlone m s x).1.1 = true) ∧
    (whole.1.1 = true → whole.2.reported = s.reported ∧
      List.Forall₂ (AnnotatedAsAlone m s whole.2.types) m.leaves whole.1.2.leaves) ∧
    (whole.1.1 = false → ∃ before leaf after before' leaf', m.leaves = before ++ leaf :: after ∧
      whole.1.2.leaves = before' ++ leaf' :: after ∧
      (∀ x ∈ before, (validateAlone m s x).1.1 = true) ∧
      (validateAlone m s leaf).1.1 = false ∧
      (∃ d, (validateAlone m s leaf).2.reported = s.reported ++ [d] ∧
        whole.2.reported = s.reported ++ [d]) ∧
      List.Forall₂ (AnnotatedAsAlone m s whole.2.types) before before' ∧
      AnnotatedAsAlone m s whole.2.types leaf leaf') := by
  intro whole
  obtain ⟨w, hs, hms⟩ := h.holds
  obtain ⟨⟨⟨m', found⟩, types⟩, hcheck⟩ : ∃ r, m.check s.config s.vars s.types = r := ⟨_, rfl⟩
  -- the module is checked leaf by leaf, and each leaf fares as it would alone
  have hcomposed : Composed s.config s.vars s.types types m.leaves m'.leaves found := by
    have hleaves := moduleCheck_leaves hcheck
    rw [hs.types, hs.vars] at hleaves ⊢
    have hrel : Arenas.stmt.list.rel w m.leaves m.leaves := by
      cases hms m hm with
      | mk file hblock => exact hblock.leaves
    exact checkAll_composed hs.toSound _ hs.toSound (le_refl w) rfl hrel hleaves (.refl types)
  cases found with
  | ok _ =>
    have hwhole : whole = ((true, m'), { s with types }) := validate_of_ok hcheck
    obtain ⟨haccepted, hannotated⟩ := accepted_of_composed (m := m) hcomposed
    rw [hwhole]
    exact ⟨⟨fun _ => haccepted, fun _ => rfl⟩, fun _ => ⟨rfl, hannotated⟩, nofun⟩
  | error f =>
    have hwhole : whole = ((false, m'), report { s with types } m'.file f.diagnostic) :=
      validate_of_error hcheck
    obtain ⟨before, leaf, after, before', leaf', hleaves, hleaves', haccepted, hrefused, hreported,
      hannotated, hleaf⟩ := refused_of_composed (m := m) hcomposed
    rw [hwhole]
    refine ⟨⟨nofun, fun hall => ?_⟩, nofun, fun _ => ?_⟩
    · have hmem : leaf ∈ m.leaves := by simp [hleaves]
      rw [hall leaf hmem] at hrefused
      exact absurd hrefused (by decide)
    · exact ⟨before, leaf, after, before', leaf', hleaves, hleaves', haccepted, hrefused,
        ⟨f.diagnostic, hreported, rfl⟩, hannotated, hleaf⟩

set_option maxRecDepth 4000 in
/-- A module whose third leaf is refused: one stands in a block before it, one is exported, and one
follows that would be refused too. -/
theorem validate_compositional_refused :
    let text := "do local xs = \x7b 1, 2 \x7d end
export local t = \x7b x = 1 \x7d
local y: string = t.x
local z: number = 'a'"
    ∃ m s, parse ⟨"/", []⟩ ⟨"leaves.lua"⟩ text {} = (some m, s) ∧ m.leaves.length = 4 ∧
      (validate m s).1.1 = false ∧
      ∃ before leaf after before' leaf', m.leaves = before ++ leaf :: after ∧
        (validate m s).1.2.leaves = before' ++ leaf' :: after ∧
        (validateAlone m s leaf).1.1 = false ∧
        List.Forall₂ (AnnotatedAsAlone m s (validate m s).2.types) before before' := by
  intro text
  obtain ⟨m, s, hparse, hlength, hrefused⟩ : ∃ m s,
      parse ⟨"/", []⟩ ⟨"leaves.lua"⟩ text {} = (some m, s) ∧ m.leaves.length = 4 ∧
      (validate m s).1.1 = false := exists_of_found (by rw [parse_ofList]; decide +kernel)
  obtain ⟨-, -, hfirst⟩ := validate_compositional (.of_parse hparse) List.mem_cons_self
  obtain ⟨before, leaf, after, before', leaf', hleaves, hleaves', -, halone, -, hannotated, -⟩ :=
    hfirst hrefused
  exact ⟨m, s, hparse, hlength, hrefused, before, leaf, after, before', leaf', hleaves, hleaves',
    halone, hannotated⟩

end TypedLua.Session
