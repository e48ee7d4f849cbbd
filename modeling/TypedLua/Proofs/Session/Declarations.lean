import TypedLua.Proofs.Session.Entries
import TypedLua.Proofs.Session.Layout
import TypedLua.Proofs.Typing.Demanded

/-!
# Session.Declarations

What a declaration of local variables asks of its values.  Values that are left out count as `nil`,
where they may be left out.  An interface is met by the constructors that meet its shape, although no
table is taken where the interface is declared: it is the constructor that becomes the interface.

Main statements: `validate_left_out`, `validate_interface_shape` and `check_demand_complete`.
-/

namespace TypedLua

open Text Typing

/-! ## Values that are left out -/

/-- Where values may be left out, writing them as `nil` changes nothing. -/
theorem checkLocals_padValues {config : Config} {vars : VariableArena} {targets : List VariableId}
    {values : List Expr} {span : Span} (hconfig : config.imbalancedLocals = true)
    (h : values.length ≤ targets.length) :
    checkLocals config vars targets (padValues targets.length values span) span =
      checkLocals config vars targets values span := by
  have hlength := length_padValues span h
  rw [checkLocals_eq, checkLocals_eq, padValues_of_length span hlength,
    localsFault?_eq_none_iff.2 ⟨Nat.le_of_eq hlength, .inl hlength⟩,
    localsFault?_eq_none_iff.2 ⟨h, .inr hconfig⟩]
  rfl

mutual

theorem Expr.agree_self : ∀ e : Expr, Expr.Agree .tokens Eq Eq e e
  | .number v _ => .number v ⟨⟨.intro, rfl⟩, nofun⟩
  | .string v _ => .string v ⟨⟨.intro, rfl⟩, nofun⟩
  | .boolean v _ => .boolean v ⟨⟨.intro, rfl⟩, nofun⟩
  | .nil _ => .nil ⟨⟨.intro, rfl⟩, nofun⟩
  | .unresolved name _ => .unresolved name ⟨.intro, rfl⟩
  | .reference _ _ => .reference rfl ⟨.intro, rfl⟩
  | .typeName name _ => .typeName name ⟨.intro, rfl⟩
  | .call callee arguments _ => .call callee.agree_self (Expr.agree_selfAll arguments) ⟨.intro, rfl⟩
  | .member object name _ => .member name object.agree_self ⟨.intro, rfl⟩
  | .index object key _ => .index object.agree_self key.agree_self ⟨.intro, rfl⟩
  | .group inner _ => .group inner.agree_self ⟨.intro, rfl⟩
  | .constructor entries _ => .constructor (Expr.agree_selfAll entries) ⟨.intro, rfl⟩
  | .entry _ value _ => .entry rfl value.agree_self ⟨.intro, rfl⟩
  | .prototype _ =>
    .prototype ⟨rfl, rfl, List.forall₂_refl _, List.forall₂_refl _, Link.option_rel_eq.2 rfl,
      .intro, rfl⟩
  | .typeAlias name _ => .typeAlias name ⟨.intro, rfl⟩

theorem Expr.agree_selfAll : ∀ es : List Expr, List.Forall₂ (Expr.Agree .tokens Eq Eq) es es
  | [] => .nil
  | e :: es => .cons e.agree_self (Expr.agree_selfAll es)

end

/-- Values that are filled in agree with values that are written. -/
theorem padValues_agree {count : Nat} {values nils : List Expr} (span : Span)
    (hlength : values.length + nils.length = count)
    (hnils : ∀ e ∈ nils, ∃ place, e = .nil ⟨place, Primitive.nil.typeId⟩) :
    List.Forall₂ (Expr.Agree .tokens Eq Eq) (padValues count values span) (values ++ nils) := by
  have hcount : count - values.length = nils.length := by omega
  unfold padValues
  rw [hcount]
  refine List.rel_append (Expr.agree_selfAll values) ?_
  clear hlength hcount
  induction nils with
  | nil => exact .nil
  | cons e nils ih =>
    obtain ⟨⟨place, rfl⟩, hrest⟩ := List.forall_mem_cons.1 hnils
    exact .cons (.nil (.of_primitive .intro rfl)) (ih hrest)

namespace Session

variable {s : Session} {ms : List Module} {m : Module}

theorem validateAlone_congr {x y : Stmt}
    (h : x.check s.config s.vars s.types = y.check s.config s.vars s.types) :
    validateAlone m s x = validateAlone m s y := by
  obtain ⟨⟨⟨z, found⟩, b⟩, hx⟩ : ∃ r, x.check s.config s.vars s.types = r := ⟨_, rfl⟩
  unfold validateAlone
  rw [validate_apply, validate_apply, check_alone m hx, check_alone m (h.symm.trans hx)]

/-- **A value that is left out is `nil`.**  Where values may be left out, a declaration fares as the
one in which `nil` is written for them, wherever that stands: the verdict, the messages and the
types are the same, and so is what is given back, but for places.  Where they may not, and always if
there are more values than variables, a declaration with another number of values is refused for that
alone: it is given back as it was, and there are no new types. -/
theorem validate_left_out (m : Module) (s : Session) (targets : List VariableId)
    (values nils : List Expr) (span span' : Span) :
    (s.config.imbalancedLocals = true → values.length + nils.length = targets.length →
      (∀ e ∈ nils, ∃ place, e = .nil ⟨place, Primitive.nil.typeId⟩) →
      let given := validateAlone m s (.locals targets values span)
      let written := validateAlone m s (.locals targets (values ++ nils) span')
      given.1.1 = written.1.1 ∧
        given.2.reported.map Diagnostic.message = written.2.reported.map Diagnostic.message ∧
        given.1.2.unplaced = written.1.2.unplaced ∧ given.2.types = written.2.types) ∧
    (values.length ≠ targets.length →
      s.config.imbalancedLocals = false ∨ targets.length < values.length →
      validateAlone m s (.locals targets values span) =
        ((false, m.withStatements [.locals targets values span]),
          s.report m.file (Fault.mk (valuesSpan values span)
            (if targets.length < values.length then .tooManyValues else .tooFewValues)).diagnostic))
    := by
  refine ⟨fun hconfig hlength hnils => ?_, fun hne hrefused => ?_⟩
  · intro given written
    let padded := padValues targets.length values span
    have hgiven : given = validateAlone m s (.locals targets padded span) := by
      refine validateAlone_congr ?_
      rw [Stmt.check, Stmt.check, checkLocals_padValues hconfig (by omega)]
    have hmodules : laid.module.rel () (m.withStatements [.locals targets padded span])
        (m.withStatements [.locals targets (values ++ nils) span']) :=
      .mk ⟨rfl, rfl, rfl, .refl _⟩ (.mk .intro
        (.cons (.locals .intro (List.forall₂_same.2 fun _ _ => rfl) (padValues_agree span hlength hnils)) .nil)
        (Link.scope_same (w := ()).2 rfl))
    obtain ⟨_, -, ⟨hverdict, hmodule⟩, hsession⟩ := laid_lawful.validate s.loading hmodules s s
      ⟨rfl, rfl, rfl, rfl, rfl⟩
    rw [hgiven]
    exact ⟨hverdict, hsession.messages_eq, hmodule.unplaced_eq, hsession.types⟩
  · have hfault : localsFault? s.config targets.length values.length =
        some (if targets.length < values.length then .tooManyValues else .tooFewValues) := by
      grind [localsFault?]
    exact validate_of_error (check_alone m (Stmt.Checks.imbalanced hfault).run)

set_option maxRecDepth 4000 in
/-- Two variables of type `string` with one value: the missing one is refused, as `nil` would be. -/
theorem validate_left_out_strings :
    let value := Expr.string "a" ⟨{}, Primitive.string.typeId⟩
    let declared := Variable.mk "x" Primitive.string.typeId {} false
    let s : Session :=
      { config := { imbalancedLocals := true }, vars := ⟨[declared, declared]⟩ }
    let given := validateAlone default s (.locals [⟨0⟩, ⟨1⟩] [value] {})
    let written := validateAlone default s
      (.locals [⟨0⟩, ⟨1⟩] [value, .nil ⟨{}, Primitive.nil.typeId⟩] {})
    given.1.1 = false ∧ written.1.1 = false ∧
      given.2.reported.map Diagnostic.message = written.2.reported.map Diagnostic.message := by
  intro value declared s given written
  have hrefused : given.1.1 = false := by decide +kernel
  obtain ⟨hverdict, hmessages, -, -⟩ := (validate_left_out default s [⟨0⟩, ⟨1⟩] [value]
    [.nil ⟨{}, Primitive.nil.typeId⟩] {} {}).1 rfl rfl fun e he => ⟨{}, List.mem_singleton.1 he⟩
  exact ⟨hrefused, hverdict.symm.trans hrefused, hmessages⟩

end Session

/-! ## Interfaces and their shapes -/

/-- The two types are an interface and the table of its properties. -/
structure Shaped (properties : List Property) (x r : TypeId) (a : TypeArena) : Prop where
  canonical : a.Canonical
  interface : ∃ name generics, a.get? x = some (.interface name generics properties)
  shape : a.get? r = some (.table properties)

section

variable {properties : List Property} {x r : TypeId} {a b c : TypeArena} {vars : VariableArena}

theorem Shaped.keptByInterning : KeptByInterning (Shaped properties x r) := by
  rintro s a ⟨hcanonical, ⟨name, generics, hx⟩, hr⟩
  exact ⟨hcanonical.intern s, ⟨name, generics, TypeArena.get?_intern_of_get? s hx⟩,
    TypeArena.get?_intern_of_get? s hr⟩

theorem Shaped.isAny (h : Shaped properties x r a) : x.isAny = false ∧ r.isAny = false := by
  obtain ⟨name, generics, hx⟩ := h.interface
  have hany := h.canonical.primitive .any
  constructor
  · refine Bool.eq_false_iff.2 fun hx' => ?_
    rw [eq_any_of_isAny hx'] at hx
    cases hx.symm.trans hany
  · refine Bool.eq_false_iff.2 fun hr' => ?_
    have hr := h.shape
    rw [eq_any_of_isAny hr'] at hr
    cases hr.symm.trans hany

theorem Shaped.tableResult (hb : Shaped properties x r b) (name : String) (generics : List TypeId)
    {names : List String} {types : List TypeId} {t : TypeId}
    (h : tableResult (some r) (some (.table properties)) names types b = (t, c)) :
    tableResult (some x) (some (.interface name generics properties)) names types b =
        (if c.compatible r t then x else t, c) ∧ Shaped properties x r c ∧
      ∃ entries, c.get? t = some (.table entries) := by
  obtain ⟨table, b₁, htable, h⟩ := run_bind h
  cases h
  have hc : Shaped properties x r c := (keptByInterning _).of_run htable hb
  refine ⟨(bind_of_run htable).trans ?_, hc, _, TypeArena.get?_of_intern htable⟩
  refine (bind_of_run (hc.canonical.intern_eq hc.shape)).trans ?_
  refine get_bind_run.trans ?_
  split
  · rfl
  · rfl

/-- An interface plans a constructor as its shape does. -/
theorem Shaped.constructorPlan (ha : Shaped properties x r a) (entries : List Expr) (span : Span) :
    (constructorPlan a vars (some x) entries span = .ok (tablePlan a vars (some x) entries) ∧
      constructorPlan a vars (some r) entries span = .ok (tablePlan a vars (some r) entries)) ∨
    ∃ f f', constructorPlan a vars (some x) entries span = .error f ∧
      constructorPlan a vars (some r) entries span = .error f' := by
  obtain ⟨name, generics, hx⟩ := ha.interface
  unfold Typing.constructorPlan
  cases entries with
  | nil => exact .inl ⟨by simp [emptyPlan, hx], by simp [emptyPlan, ha.shape]⟩
  | cons e es =>
    have hne : ¬ (e :: es).isEmpty = true := by simp
    rw [if_neg hne, if_neg hne]
    by_cases hnamed : (e :: es).all Expr.isEntry = true
    · rw [if_pos hnamed, if_pos hnamed]
      exact .inl ⟨rfl, rfl⟩
    · rw [if_neg hnamed, if_neg hnamed]
      refine .inr ?_
      split
      · exact ⟨_, _, rfl, rfl⟩
      · simp [arrayPlan, demandOf, ha.isAny, hx, ha.shape]

/-- A constructor meets an interface if it meets its shape. -/
theorem Shaped.checks {e : Expr} (ha : Shaped properties x r a) (he : e.entries?.isSome) :
    (∃ d d' t t' b, e.Checks vars (some x) a d (.ok t) b ∧ e.Checks vars (some r) a d' (.ok t') b ∧
      d.type = t ∧ b.compatible x t = b.compatible r t' ∧ (b.compatible x t = true → t = x)) ∨
    ∃ d d' f f' b b', e.Checks vars (some x) a d (.error f) b ∧
      e.Checks vars (some r) a d' (.error f') b' := by
  fun_induction Expr.entries? e with
  | case1 entries tag =>
    rcases ha.constructorPlan entries tag.span with ⟨hplan, hplan'⟩ | ⟨f, f', hplan, hplan'⟩
    · obtain ⟨name, generics, hx⟩ := ha.interface
      have hdemands : (tablePlan a vars (some x) entries).demands =
          (tablePlan a vars (some r) entries).demands := by
        simp only [tablePlan, Option.bind_some, hx, ha.shape]
        rfl
      obtain ⟨entries', found, b, heach⟩ := Expr.checksEach_total
        (tablePlan a vars (some x) entries).report entries
        (tablePlan a vars (some x) entries).demands a
      have heach' := heach
      rw [hdemands] at heach'
      cases found with
      | error f => exact .inr ⟨_, _, f, f, b, b, .entries hplan heach, .entries hplan' heach'⟩
      | ok ts =>
        obtain ⟨⟨t', c⟩, hresult'⟩ :
          ∃ run, (tablePlan a vars (some r) entries).result ts b = run := ⟨_, rfl⟩
        have hshape := hresult'
        simp only [tablePlan, Option.bind_some, ha.shape] at hshape
        obtain ⟨hresult, hc, _, htable⟩ :=
          (heach.keeps keptByInterning ha).tableResult name generics hshape
        have hresult : (tablePlan a vars (some x) entries).result ts b =
            (if c.compatible r t' then x else t', c) := by
          simp only [tablePlan, Option.bind_some, hx]
          exact hresult
        refine .inl ⟨_, _, _, t', c, .constructor hplan heach hresult,
          .constructor hplan' heach' hresult', rfl, ?_⟩
        -- a table is never taken where the interface is declared
        obtain ⟨name, generics, hx⟩ := hc.interface
        have hrefused := TypeArena.not_compatible_of_interface hx htable
        cases c.compatible r t' with
        | true => exact ⟨c.compatible_self x, fun _ => rfl⟩
        | false => exact ⟨hrefused, fun htrue => by cases hrefused.symm.trans htrue⟩
    · exact .inr ⟨_, _, f, f', a, a, .unplanned hplan, .unplanned hplan'⟩
  | case2 inner tag ih =>
    rcases ih he with ⟨d, d', t, t', b, h, h', -, hfound⟩ | ⟨d, d', f, f', b, b', h, h'⟩
    · exact .inl ⟨_, _, t, t', b, .group h rfl, .group h' rfl, rfl, hfound⟩
    · exact .inr ⟨_, _, f, f', b, b', .group h rfl, .group h' rfl⟩
  | case3 => cases he

end

namespace Session

variable {s : Session} {ms : List Module}

theorem validateAlone_one {v : VariableId} {e d : Expr} {found : Except Fault TypeId}
    {b : TypeArena} (hv : (s.vars.typeOf v).isAny = false)
    (h : e.Checks s.vars (some (s.vars.typeOf v)) s.types d found b) (span : Span) :
    ((validateAlone m s (.locals [v] [e] span)).1.1 = true ↔
      ∃ t, found = .ok t ∧ b.compatible (s.vars.typeOf v) t = true) ∧
    (validateAlone m s (.locals [v] [e] span)).1.2 = m.withStatements [.locals [v] [d] span] := by
  have hdemand : demandOf (s.vars.typeOf v) = some (s.vars.typeOf v) := if_neg (by simp [hv])
  have hlocals : ∀ {each c}, Expr.ChecksEach s.vars (some .valueMismatch) [e]
      [demandOf (s.vars.typeOf v)] s.types [d] each c →
      (validateAlone m s (.locals [v] [e] span)).1 =
        (each.isOk, m.withStatements [.locals [v] [d] span]) := by
    intro each c heach
    have hcheck : Stmt.Checks s.config s.vars (.locals [v] [e] span) s.types
        (.locals [v] [d] span) (each.map fun _ => ()) c := by
      exact .locals (localsFault?_eq_none_iff.2 ⟨Nat.le_refl 1, .inl rfl⟩) heach rfl
    refine (validate_of_check (check_alone m hcheck.run)).1.trans ?_
    cases each with
    | ok _ => rfl
    | error _ => rfl
  rw [hdemand] at hlocals
  cases found with
  | error f =>
    rw [hlocals (.fault h)]
    simp [Except.isOk, Except.toBool]
  | ok t =>
    cases hmet : b.compatible (s.vars.typeOf v) t with
    | true =>
      rw [hlocals (.cons h (by simp [mismatch?, hmet]) .nil rfl)]
      simp [Except.isOk, Except.toBool, Except.map, hmet]
    | false =>
      obtain ⟨f, hf⟩ : ∃ f, mismatch? b (some .valueMismatch) (some (s.vars.typeOf v)) t d.span =
        some f := by simp [mismatch?, hmet]
      rw [hlocals (.mismatch h hf)]
      simp [Except.isOk, Except.toBool, hmet]

/-- **An interface is met by the constructors that meet its shape.**  Whatever calls led to the
session, take a declaration of one variable with a constructor, perhaps in parentheses, for its
value.  It is accepted with a variable of an interface if and only if it is accepted with a variable
of the table that has the properties of the interface; and then the value gets the interface itself
for its type. -/
theorem validate_interface_shape (h : Reached s ms) (m : Module) {i r : VariableId} {name : String}
    {generics : List TypeId} {properties : List Property}
    (hi : s.types.get? (s.vars.typeOf i) = some (.interface name generics properties))
    (hr : s.types.get? (s.vars.typeOf r) = some (.table properties)) {e : Expr}
    (he : e.entries?.isSome) (span : Span) :
    let declared v := validateAlone m s (.locals [v] [e] span)
    ((declared i).1.1 = true ↔ (declared r).1.1 = true) ∧
      ((declared i).1.1 = true → ∃ value,
        (declared i).1.2 = m.withStatements [.locals [i] [value] span] ∧
        value.type = s.vars.typeOf i) := by
  intro declared
  obtain ⟨w, hs, -⟩ := h.holds
  have hshaped : Shaped properties (s.vars.typeOf i) (s.vars.typeOf r) s.types := by
    refine ⟨?_, ⟨name, generics, hi⟩, hr⟩
    rw [hs.types]
    exact hs.toSound.grounded.toCanonical
  obtain ⟨hany, hany'⟩ := hshaped.isAny
  rcases hshaped.checks he with ⟨d, d', t, t', b, h, h', rfl, hsame, hx⟩ |
    ⟨d, d', f, f', b, b', h, h'⟩
  · obtain ⟨hi, hmodule⟩ := validateAlone_one (m := m) hany h span
    obtain ⟨hr, -⟩ := validateAlone_one (m := m) hany' h' span
    refine ⟨(hi.trans ?_).trans hr.symm, fun hok => ⟨d, hmodule, ?_⟩⟩
    · simp [hsame]
    · obtain ⟨_, ⟨⟩, htaken⟩ := hi.1 hok
      exact hx htaken
  · obtain ⟨hi, -⟩ := validateAlone_one (m := m) hany h span
    obtain ⟨hr, -⟩ := validateAlone_one (m := m) hany' h' span
    refine ⟨(hi.trans ?_).trans hr.symm, fun hok => ?_⟩
    · simp
    · obtain ⟨_, ⟨⟩, -⟩ := hi.1 hok

set_option maxRecDepth 4000 in
/-- A constructor in parentheses, for an interface and for its shape. -/
theorem validate_interface_shape_string :
    let text := "interface P \x7b x: string \x7d
local i: P = \x7b x = 'a' \x7d
local r: \x7b x: string \x7d = \x7b x = 'a' \x7d"
    let s := (parse ⟨"/", []⟩ ⟨"main.lua"⟩ text {}).2
    let entry := Expr.entry ⟨0⟩ (.string "a" ⟨{}, Primitive.string.typeId⟩) ⟨{}, .any⟩
    let e := Expr.group (.constructor [entry] ⟨{}, .any⟩) ⟨{}, .any⟩
    let declared v := validateAlone default s (.locals [v] [e] {})
    (declared ⟨1⟩).1.1 = true ∧ (declared ⟨3⟩).1.1 = true ∧
      s.vars.typeOf ⟨1⟩ ≠ s.vars.typeOf ⟨3⟩ ∧ ∃ value,
        (declared ⟨1⟩).1.2 = (default : Module).withStatements [.locals [⟨1⟩] [value] {}] ∧
        value.type = s.vars.typeOf ⟨1⟩ := by
  intro text s entry e declared
  have hreached (text : String) : ∃ ms, Reached (parse ⟨"/", []⟩ ⟨"main.lua"⟩ text {}).2 ms :=
    ⟨_, .parse _ _ _ (.fresh {} (some ""))⟩
  obtain ⟨ms, hreached⟩ : ∃ ms, Reached s ms := hreached text
  obtain ⟨hi, hr, hok, hne⟩ : s.types.get? (s.vars.typeOf ⟨1⟩) =
        some (.interface "P" [] [⟨"x", Primitive.string.typeId, false⟩]) ∧
      s.types.get? (s.vars.typeOf ⟨3⟩) =
        some (.table [⟨"x", Primitive.string.typeId, false⟩]) ∧
      (declared ⟨1⟩).1.1 = true ∧ s.vars.typeOf ⟨1⟩ ≠ s.vars.typeOf ⟨3⟩ := by
    unfold declared s
    rw [parse_ofList]
    decide +kernel
  clear_value s
  obtain ⟨hiff, hvalue⟩ := validate_interface_shape hreached default hi hr (e := e) rfl {}
  exact ⟨hok, hiff.1 hok, hne, hvalue hok⟩

/-! ## Demands -/

/-- **A demand refuses nothing that is accepted without it.**  Take any expression of a module that
was read, in which no constructor repeats the name of an entry, and any type but `any`, in which no
table or interface repeats the name of a property.  If the expression is accepted where nothing is
demanded, with a type that the other one takes, it is accepted where that one is demanded, again with
a type that it takes. -/
theorem check_demand_complete (h : Reached s ms) {m : Module} (hm : m ∈ ms) :
    m.Every fun e => e.Every (Expr.NamesDistinct s.vars) → ∀ wanted, s.types.Holds wanted →
      wanted ≠ .any → (s.types.unfold wanted).namesDistinct = true →
      ∀ e₁ t a, e.check s.vars none s.types = ((e₁, .ok t), a) → a.compatible wanted t = true →
        ∃ e₂ t' b, e.check s.vars (some wanted) s.types = ((e₂, .ok t'), b) ∧
          b.compatible wanted t' = true := by
  obtain ⟨w, hs, hms⟩ := h.holds
  refine Module.every_of_rel (fun e he hnames wanted hheld hany hdistinct e₁ t a hcheck htaken => ?_)
    (hms m hm)
  rw [hs.types] at hheld hdistinct hcheck ⊢
  rw [hs.vars] at hnames hcheck ⊢
  have hisAny : wanted.isAny = false := Bool.eq_false_iff.2 fun hw => hany (eq_any_of_isAny hw)
  obtain ⟨e₂, t', b, hchecks, htaken'⟩ := check_with_demand hs.toSound he hnames ⟨hheld, hdistinct⟩
    hisAny (Expr.checks_iff.1 hcheck) htaken
  exact ⟨e₂, t', b, hchecks.run, htaken'⟩

set_option maxRecDepth 4000 in
/-- A list of strings, where nothing and where a list of strings is demanded. -/
theorem check_demand_complete_strings :
    let text := "local t: string[] = \x7b 'a', 'b' \x7d"
    ∃ m s x e e₁ t a, parse ⟨"/", []⟩ ⟨"main.lua"⟩ text {} = (some m, s) ∧ x ∈ m.leaves ∧
      e ∈ x.values ∧ e.check s.vars none s.types = ((e₁, .ok t), a) ∧
      ∃ e₂ t' b, e.check s.vars (some (s.vars.typeOf ⟨0⟩)) s.types = ((e₂, .ok t'), b) ∧
        b.compatible (s.vars.typeOf ⟨0⟩) t' = true := by
  intro text
  obtain ⟨m, s, hparse, hm⟩ : ∃ m s, parse ⟨"/", []⟩ ⟨"main.lua"⟩ text {} = (some m, s) ∧
      (m.leaves.any fun x => x.values.any fun e =>
        let run := e.check s.vars none s.types
        let wanted := s.vars.typeOf ⟨0⟩
        (decide (e.NamesDistinct s.vars) &&
          e.parts.all fun d => d.parts.isEmpty && decide (d.NamesDistinct s.vars)) &&
        decide (s.types.Holds wanted ∧ wanted ≠ .any ∧
          (s.types.unfold wanted).namesDistinct = true) &&
        run.1.2.toOption.any (run.2.compatible wanted)) = true :=
    exists_of_found (by decide +kernel)
  obtain ⟨x, hx, hm⟩ := List.any_eq_true.1 hm
  obtain ⟨e, he, hm⟩ := List.any_eq_true.1 hm
  obtain ⟨hm, hrun⟩ := (Bool.and_eq_true _ _).mp hm
  obtain ⟨hm, hwanted⟩ := (Bool.and_eq_true _ _).mp hm
  obtain ⟨hname, hparts⟩ := (Bool.and_eq_true _ _).mp hm
  have hnames : e.Every (Expr.NamesDistinct s.vars) := by
    refine Expr.every_iff.2 ⟨of_decide_eq_true hname, fun d hd => ?_⟩
    obtain ⟨hleaf, hname⟩ := (Bool.and_eq_true _ _).mp (List.all_eq_true.1 hparts d hd)
    refine Expr.every_iff.2 ⟨of_decide_eq_true hname, fun _ hmem => ?_⟩
    rw [List.isEmpty_iff.1 hleaf] at hmem
    cases hmem
  obtain ⟨hholds, hany, hdistinct⟩ := of_decide_eq_true hwanted
  obtain ⟨t, ht, htaken⟩ := (Option.any_eq_true _ _).1 hrun
  obtain ⟨⟨⟨e₁, checked⟩, a⟩, hcheck⟩ : ∃ run, e.check s.vars none s.types = run := ⟨_, rfl⟩
  rw [hcheck] at ht htaken
  cases checked with
  | error => cases ht
  | ok =>
    cases ht
    have hevery :=
      check_demand_complete (.of_parse hparse) (List.mem_singleton_self m)
    have hdemand := (Expr.every_iff.1 ((Block.every_iff m.block).1 hevery x hx e he)).1 hnames
    exact ⟨m, s, x, e, e₁, t, a, hparse, hx, he, hcheck,
      hdemand _ hholds hany hdistinct _ _ _ hcheck htaken⟩

end Session

end TypedLua
