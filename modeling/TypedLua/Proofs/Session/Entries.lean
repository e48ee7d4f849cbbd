import TypedLua.Proofs.Session.Validation
import TypedLua.Proofs.Typing.Entries

/-!
# Session.Entries

Tables that are given to variables.  A declaration of local variables is accepted if checking goes
past it, whatever becomes of the statements behind it.  Then each of its variables has a value that
meets what is declared for it; so the entries of a table constructor respect the properties of a
declared table or interface.  They do so by name: of several entries with one name, only the first
is compared.

Main statements: `validate_entries_respect` and `validate_repeated_entry`.
-/

namespace TypedLua

open Text Typing

/-! ## Declarations and entries -/

/-- The variables, the values and the place of a declaration. -/
def Stmt.locals? : Stmt → Option (List VariableId × List Expr × Span)
  | .locals targets values span => some (targets, values, span)
  | _ => none

variable {targets : List VariableId} {values : List Expr} {span : Span} {found : Except Fault Unit}

theorem Stmt.eq_of_locals? {m : Stmt} (h : m.locals? = some (targets, values, span)) :
    m = .locals targets values span := by
  cases m with
  | locals _ _ _ =>
    cases h
    rfl
  | _ => cases h

/-- The variable, the value and the tag of a named entry. -/
def Expr.entry? : Expr → Option (VariableId × Expr × Tag)
  | .entry id value tag => some (id, value, tag)
  | _ => none

theorem Expr.eq_of_entry? {d e : Expr} {id : VariableId} {tag : Tag}
    (h : d.entry? = some (id, e, tag)) : d = .entry id e tag := by
  cases d with
  | entry _ _ _ =>
    cases h
    rfl
  | _ => cases h

namespace Session

/-! ## Checked declarations -/

/-- The values of a declaration meet the types that are declared. -/
theorem locals_met {w : Arenas} {config : Config} {m : Stmt} {b : TypeArena} (hw : w.Sound)
    (htargets : Arenas.variableIds.list.rel w targets targets)
    (hvalues : Arenas.expr.list.rel w values values)
    (h : (Stmt.locals targets values span).Checks config w.vars w.types m (.ok ()) b) :
    ∃ values', m = .locals targets values' span ∧
      values'.map Expr.untyped = (padValues targets.length values span).map Expr.untyped ∧
      values'.length = targets.length ∧
      ∀ p ∈ targets.zip values', Met b w.vars (demandOf (w.vars.typeOf p.1)) p.2 := by
  cases h with
  | plain hplain => cases hplain
  | @locals _ _ values' _ found _ _ _ hfault heach hfound =>
    obtain ⟨ts, rfl, -⟩ := ok_of_map hfound
    have huntyped := heach.untyped
    refine ⟨values', rfl, huntyped, ?_, ?_⟩
    · rw [length_eq_of_untyped huntyped]
      exact length_padValues span (localsFault?_eq_none_iff.1 hfault).1
    · rintro ⟨target, value⟩ hp
      refine heach.met rfl hw (padValues_rel hw hvalues ..) (variableDemands_rel hw htargets)
        (_, value) ?_
      rw [List.zip_map_left]
      exact List.mem_map_of_mem hp

section

variable {config : Config} {vars : VariableArena} {ms ms' : List Stmt} {a b : TypeArena}

theorem checksAll_append_cases {ns xs : List Stmt} {c : TypeArena}
    (h : Stmt.ChecksAll config vars (ms ++ ns) a xs (.ok ()) c) :
    ∃ ms' ns' b, Stmt.ChecksAll config vars ms a ms' (.ok ()) b ∧
      Stmt.ChecksAll config vars ns b ns' (.ok ()) c ∧ xs = ms' ++ ns' := by
  induction ms generalizing xs a with
  | nil => exact ⟨[], xs, a, .nil, h, rfl⟩
  | cons m ms ih =>
    cases h with
    | @cons _ m' _ _ _ _ _ _ h hall =>
      obtain ⟨ms', ns', b, hms, hns, rfl⟩ := ih hall
      exact ⟨m' :: ms', ns', b, .cons h hms, hns, rfl⟩

theorem checkAll_append_error {ns : List Stmt} {f : Fault}
    (h : Stmt.checkAll config vars ms a = ((ms', .error f), b)) :
    Stmt.checkAll config vars (ms ++ ns) a = ((ms' ++ ns, .error f), b) :=
  (Stmt.checksAll_iff.1 h).append_error.run

theorem length_checksAll (h : Stmt.ChecksAll config vars ms a ms' found b) :
    ms'.length = ms.length := by
  induction ms generalizing ms' a with
  | nil =>
    cases h
    rfl
  | cons m ms ih =>
    cases h with
    | fault => rfl
    | cons _ hall => rw [List.length_cons, List.length_cons, ih hall]

end

/-- What they meet when the declaration is checked, they meet at the end. -/
theorem checkAll_locals_met {w : Arenas} {config : Config} {before after xs ys : List Stmt}
    {b c : TypeArena} (hw : w.Sound)
    (hrel : Arenas.stmt.list.rel w (before ++ .locals targets values span :: after)
      (before ++ .locals targets values span :: after))
    (hupTo : Stmt.checkAll config w.vars (before ++ [.locals targets values span]) w.types =
      ((ys, .ok ()), b))
    (h : Stmt.checkAll config w.vars (before ++ .locals targets values span :: after) w.types =
      ((xs, found), c)) :
    ∃ before' values' after', xs = before' ++ .locals targets values' span :: after' ∧
      before'.length = before.length ∧
      values'.map Expr.untyped = (padValues targets.length values span).map Expr.untyped ∧
      values'.length = targets.length ∧
      ∀ p ∈ targets.zip values', Met c w.vars (demandOf (w.vars.typeOf p.1)) p.2 := by
  have heach := List.forall₂_same.1 hrel
  rw [Stmt.checksAll_iff] at hupTo
  have hbefore : Arenas.stmt.list.rel w before before :=
    List.forall₂_same.2 fun x hx => heach x (List.mem_append_left _ hx)
  obtain ⟨before', leaf, b₀, hfirst, hleaf, rfl⟩ := checksAll_append_cases hupTo
  obtain ⟨hle, hw₀⟩ := hfirst.sound hw hbefore
  have hstmt := Arenas.stmt.mono hle (heach (.locals targets values span) (by simp))
  cases hleaf with | cons hlocals hnil =>
  cases hnil
  obtain ⟨hle₁, hw₁, hchecked⟩ := hlocals.sound hw₀ hstmt
  cases hstmt with
  | locals _ htargets hvalues =>
    obtain ⟨values', rfl, huntyped, hlength, hmet⟩ := locals_met hw₀ htargets hvalues hlocals
    cases hchecked with | locals _ _ hvalues' =>
    -- what is met when the declaration has been checked stays met behind it
    have hafter : Arenas.stmt.list.rel ⟨b, w.vars⟩ after after := by
      refine List.forall₂_same.2 fun x hx => Arenas.stmt.mono (le_trans hle hle₁) ?_
      exact heach x (List.mem_append_right _ (List.mem_cons_of_mem _ hx))
    obtain ⟨after', found', c', hlast⟩ := Stmt.checksAll_total after b
    obtain ⟨hle₂, -⟩ := hlast.sound hw₁ hafter
    have hall := (hupTo.append_ok hlast).run
    rw [List.append_assoc, List.singleton_append, h] at hall
    cases hall
    refine ⟨before', values', after', by simp, length_checksAll hfirst, huntyped, hlength, ?_⟩
    rintro ⟨target, value⟩ hp
    obtain ⟨htarget, hvalue⟩ := List.of_mem_zip hp
    have hdemand := List.forall₂_same.1 (variableDemands_rel hw₀ htargets)
      (demandOf (w.vars.typeOf target)) (List.mem_map_of_mem htarget)
    have hvalue := List.forall₂_same.1 hvalues' value hvalue
    exact Met.mono (w := ⟨b, w.vars⟩) (hmet _ hp) hw₁ hle₂ hvalue
      (Arenas.typeIds.option.mono hle₁ hdemand)

/-! ## Modules -/

variable {s : Session} {ms : List Module} {m : Module}

theorem validate_of_check {m' : Module} {types : TypeArena}
    (h : m.check s.config s.vars s.types = ((m', found), types)) :
    (validate m s).1 = (found.isOk, m') ∧ (validate m s).2.types = types ∧
      (validate m s).2.vars = s.vars := by
  cases found with
  | ok _ =>
    rw [validate_of_ok h]
    exact ⟨rfl, rfl, rfl⟩
  | error f =>
    rw [validate_of_error h]
    exact ⟨rfl, rfl, rfl⟩

/-- **Accepted tables respect what is declared for them.**  Whatever calls led to the session, take
a declaration of local variables among the leaves of a module.  If the module is accepted, then so is
its part up to the declaration.  If that part is accepted, the declaration gets its values annotated,
one for each variable; and where a table or interface is declared for a variable and its value is a
constructor, perhaps in parentheses, the first entry of a name has a type that is taken by the first
property of that name, and an entry whose name no other entry has is taken by all of them. -/
theorem validate_entries_respect (h : Reached s ms) (hm : m ∈ ms) {before after : List Stmt}
    {targets : List VariableId} {values : List Expr} {span : Span}
    (hleaves : m.leaves = before ++ .locals targets values span :: after) :
    let upTo := m.withStatements (before ++ [.locals targets values span])
    let types := (validate m s).2.types
    let vars := (validate m s).2.vars
    ((validate m s).1.1 = true → (validate upTo s).1.1 = true) ∧
    ((validate upTo s).1.1 = true →
      ∃ before' values' after',
        (validate m s).1.2.leaves = before' ++ .locals targets values' span :: after' ∧
        before'.length = before.length ∧ values'.length = targets.length ∧
        values'.map Expr.untyped = (padValues targets.length values span).map Expr.untyped ∧
        ∀ target value, (target, value) ∈ targets.zip values' → ∀ shape entries,
          types.get? (vars.typeOf target) = some shape → value.entries? = some entries →
          Respects types vars shape.properties entries) := by
  intro upTo types vars
  obtain ⟨w, hs, hms⟩ := h.holds
  have hrel : Arenas.stmt.list.rel w m.leaves m.leaves := by
    cases hms m hm with
    | mk file hblock => exact hblock.leaves
  obtain ⟨⟨⟨m', found⟩, c⟩, hcheck⟩ : ∃ r, m.check s.config s.vars s.types = r := ⟨_, rfl⟩
  obtain ⟨⟨⟨ys, foundUpTo⟩, b⟩, hupTo⟩ : ∃ r, Stmt.checkAll s.config s.vars
    (before ++ [.locals targets values span]) s.types = r := ⟨_, rfl⟩
  obtain ⟨hvalid, htypes, hvars⟩ := validate_of_check hcheck
  obtain ⟨hvalidUpTo, -, -⟩ := validate_of_check (check_withStatements m hupTo)
  have hall := moduleCheck_leaves hcheck
  rw [hleaves] at hall hrel
  constructor
  · -- a fault up to the declaration would be the fault of the module
    intro haccepted
    cases foundUpTo with
    | ok _ => rw [hvalidUpTo]; rfl
    | error f =>
      have hfault : Stmt.checkAll s.config s.vars
          (before ++ [.locals targets values span] ++ after) s.types =
          ((ys ++ after, .error f), b) := checkAll_append_error hupTo
      rw [List.append_assoc, List.singleton_append, hall] at hfault
      obtain ⟨-, rfl⟩ := Prod.mk.inj (Prod.mk.inj hfault).1
      rw [hvalid] at haccepted
      cases haccepted
  · intro haccepted
    cases foundUpTo with
    | error f =>
      rw [hvalidUpTo] at haccepted
      cases haccepted
    | ok _ =>
      rw [hs.types, hs.vars] at hall hupTo
      obtain ⟨before', values', after', hleaves', hbefore, huntyped, hlength, hmet⟩ :=
        checkAll_locals_met hs.toSound hrel hupTo hall
      obtain ⟨-, hc, -⟩ := (inStep_checkAll (grounded_inStep w.vars) s.config _
        hs.variablesMatch hrel).sound hs.toSound hall
      refine ⟨before', values', after', ?_, hbefore, hlength, huntyped, ?_⟩
      · rw [hvalid, hleaves']
      · intro target value hp shape entries hshape hentries
        have htypes : types = c := htypes
        have hvars : vars = w.vars := hvars.trans hs.vars
        rw [htypes, hvars] at hshape ⊢
        exact (hmet _ hp).respects hc.grounded hshape hentries

set_option maxRecDepth 4000 in
/-- A declaration of two variables, an interface and a table, before a statement that is refused. -/
theorem validate_entries_respect_points :
    let text := "interface Point \x7b x: number, y: number \x7d
local p: Point, q: \x7b z: string \x7d = (\x7b x = 1, y = 2 \x7d), \x7b z = 'a', w = 1 \x7d
local r: number = 'a'"
    ∃ m s before targets values span after,
      parse ⟨"/", []⟩ ⟨"points.lua"⟩ text {} = (some m, s) ∧
      m.leaves = [before, .locals targets values span, after] ∧ (validate m s).1.1 = false ∧
      (validate (m.withStatements [before, .locals targets values span]) s).1.1 = true ∧
      ∃ before' values' after',
        (validate m s).1.2.leaves = before' ++ .locals targets values' span :: after' ∧
        before'.length = 1 ∧ values'.length = targets.length ∧
        ∀ target value, (target, value) ∈ targets.zip values' → ∀ shape entries,
          (validate m s).2.types.get? ((validate m s).2.vars.typeOf target) = some shape →
          value.entries? = some entries →
          Respects (validate m s).2.types (validate m s).2.vars shape.properties entries := by
  intro text
  obtain ⟨m, s, hparse, hlength, hrefused, hlocals, haccepted⟩ : ∃ m s,
      parse ⟨"/", []⟩ ⟨"points.lua"⟩ text {} = (some m, s) ∧ m.leaves.length = 3 ∧
      (validate m s).1.1 = false ∧ (m.leaves[1]?.bind Stmt.locals?).isSome ∧
      (validate (m.withStatements (m.leaves.take 2)) s).1.1 = true :=
    exists_of_found (by rw [parse_ofList]; decide +kernel)
  obtain ⟨before, x, after, hleaves⟩ := List.length_eq_three.1 hlength
  rw [hleaves] at hlocals haccepted
  obtain ⟨⟨targets, values, span⟩, hx⟩ := Option.isSome_iff_exists.1 hlocals
  obtain rfl := Stmt.eq_of_locals? hx
  have hparts : m.leaves = [before] ++ .locals targets values span :: [after] := hleaves
  obtain ⟨-, hrespect⟩ := validate_entries_respect (.of_parse hparse) List.mem_cons_self hparts
  obtain ⟨before', values', after', hleaves', hbefore, hlength, -, hentries⟩ :=
    hrespect haccepted
  exact ⟨m, s, before, targets, values, span, after, hparse, hleaves, hrefused, haccepted, before',
    values', after', hleaves', hbefore, hlength, hentries⟩

set_option maxRecDepth 4000 in
/-- **A second entry of the same name is not compared**: a string is accepted where a number is
declared. -/
theorem validate_repeated_entry :
    let text := "local p: \x7b x: number \x7d = \x7b x = 1, x = \"a\" \x7d"
    ∃ m s, parse ⟨"/", []⟩ ⟨"main.lua"⟩ text {} = (some m, s) ∧ (validate m s).1.1 = true ∧
      ∃ targets values span target value shape entries id e tag p,
        .locals targets values span ∈ (validate m s).1.2.leaves ∧
        (target, value) ∈ targets.zip values ∧
        (validate m s).2.types.get? ((validate m s).2.vars.typeOf target) = some shape ∧
        value.entries? = some entries ∧ .entry id e tag ∈ entries ∧
        shape.property? ((validate m s).2.vars.nameOf id) = some p ∧ p.type ≠ .any ∧
        (validate m s).2.types.compatible p.type e.type = false := by
  intro text
  obtain ⟨m, s, hparse, haccepted, hm⟩ : ∃ m s,
      parse ⟨"/", []⟩ ⟨"main.lua"⟩ text {} = (some m, s) ∧ (validate m s).1.1 = true ∧
      ((validate m s).1.2.leaves.any fun x => x.locals?.any fun declared =>
        (declared.1.zip declared.2.1).any fun given =>
          ((validate m s).2.types.get? ((validate m s).2.vars.typeOf given.1)).any fun shape =>
            given.2.entries?.any fun entries => entries.any fun d => d.entry?.any fun entry =>
              (shape.property? ((validate m s).2.vars.nameOf entry.1)).any fun p =>
                decide (p.type ≠ .any ∧
                  (validate m s).2.types.compatible p.type entry.2.1.type = false)) = true :=
    exists_of_found (by rw [parse_ofList]; decide +kernel)
  obtain ⟨x, hx, hm⟩ := List.any_eq_true.1 hm
  obtain ⟨⟨targets, values, span⟩, hlocals, hm⟩ := (Option.any_eq_true _ _).1 hm
  rw [Stmt.eq_of_locals? hlocals] at hx
  obtain ⟨⟨target, value⟩, hgiven, hm⟩ := List.any_eq_true.1 hm
  obtain ⟨shape, hshape, hm⟩ := (Option.any_eq_true _ _).1 hm
  obtain ⟨entries, hentries, hm⟩ := (Option.any_eq_true _ _).1 hm
  obtain ⟨d, hd, hm⟩ := List.any_eq_true.1 hm
  obtain ⟨⟨id, e, tag⟩, hentry, hm⟩ := (Option.any_eq_true _ _).1 hm
  obtain ⟨p, hp, hm⟩ := (Option.any_eq_true _ _).1 hm
  rw [Expr.eq_of_entry? hentry] at hd
  exact ⟨m, s, hparse, haccepted, targets, values, span, target, value, shape, entries, id, e, tag, p,
    hx, hgiven, hshape, hentries, hd, hp, of_decide_eq_true hm⟩

end Session

end TypedLua
