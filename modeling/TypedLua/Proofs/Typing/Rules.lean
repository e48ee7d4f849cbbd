import TypedLua.Proofs.Simulation
import TypedLua.Proofs.Tree.Height
import TypedLua.Typing.Module

/-!
# Typing.Rules

Checking by rules.  A rule says which parts of an expression or a statement are checked, in which
order and in which arenas, and what becomes of the whole; there is a rule for each way in which a
check can end.  What holds of every check is shown by induction on the rules that it went by.

Main statements: `Expr.checks_iff` and `Stmt.checksAll_iff`, the rules lead to what checking gives,
and to nothing else.
-/

namespace TypedLua

open Text Typing

theorem get_bind_run {σ β : Type} {g : σ → StateM σ β} {s : σ} :
    ((get : StateM σ σ) >>= g) s = g s s := rfl

section

variable {α β : Type} {x : Except Fault α}

theorem ok_of_map {g : α → β} {z : β} (h : x.map g = .ok z) : ∃ y, x = .ok y ∧ g y = z := by
  cases x with
  | ok y => exact ⟨y, rfl, Except.ok.inj h⟩
  | error => cases h

theorem ok_of_bind {g : α → Except Fault β} {z : β} (h : x.bind g = .ok z) :
    ∃ y, x = .ok y ∧ g y = .ok z := by
  cases x with
  | ok y => exact ⟨y, rfl, h⟩
  | error => cases h

theorem error_of_map {g : α → β} {f : Fault} (h : x.map g = .error f) : x = .error f := by
  cases x with
  | ok => cases h
  | error => exact congrArg Except.error (Except.error.inj h)

theorem error_of_bind {g : α → Except Fault β} {f : Fault} (h : x.bind g = .error f) :
    x = .error f ∨ ∃ y, x = .ok y ∧ g y = .error f := by
  cases x with
  | ok y => exact .inr ⟨y, rfl, h⟩
  | error => exact .inl (congrArg Except.error (Except.error.inj h))

end

/-! ## Constructors -/

theorem eq_of_bind_demandOf {demand : Demand} {id : TypeId} (h : demand.bind demandOf = some id) :
    demand = some id := by
  obtain ⟨x, rfl, hx⟩ := Option.bind_eq_some_iff.1 h
  unfold demandOf at hx
  split at hx
  · cases hx
  · exact hx

/-- The plans for a constructor: without entries it is what is wanted, or of unknown type; with
named ones it is a table; with bare ones it is an array, that which is wanted if one is. -/
inductive Planned (a : TypeArena) (vars : VariableArena) (demand : Demand) (entries : List Expr) :
    ConstructorPlan → Prop
  | empty {id element : TypeId} : entries = [] → demand = some id →
      a.get? id = some (.array element) →
      Planned a vars demand entries { result := fun _ => return id }
  | unknown : entries = [] →
      Planned a vars demand entries { result := fun _ => return Primitive.unknown.typeId }
  | table : entries.all Expr.isEntry = true →
      Planned a vars demand entries (tablePlan a vars demand entries)
  | array : entries.any Expr.isEntry = false →
      Planned a vars demand entries
        { demands := List.replicate entries.length none
          result := fun types => TypeArena.intern (.array (commonType types)) }
  | wanted {id element : TypeId} : entries.any Expr.isEntry = false → demand = some id →
      a.get? id = some (.array element) →
      Planned a vars demand entries
        { demands := List.replicate entries.length (demandOf element)
          report := some assignability
          result := fun _ => return id }

theorem planned_emptyPlan (a : TypeArena) (vars : VariableArena) (demand : Demand) :
    Planned a vars demand [] (emptyPlan a vars demand) := by
  unfold emptyPlan
  split
  · next id element hget => exact .empty rfl rfl hget
  · exact .table rfl
  · exact .table rfl
  · exact .unknown rfl

/-- A constructor that is not refused has one of the plans. -/
theorem planned_of_ok {a : TypeArena} {vars : VariableArena} {demand : Demand}
    {entries : List Expr} {span : Span} {plan : ConstructorPlan}
    (h : constructorPlan a vars demand entries span = .ok plan) :
    Planned a vars demand entries plan := by
  unfold constructorPlan at h
  split at h
  · next hempty =>
    cases h
    obtain rfl := List.isEmpty_iff.1 hempty
    exact planned_emptyPlan a vars demand
  · split at h
    · next hnamed =>
      cases h
      exact .table hnamed
    · split at h
      · cases h
      · next hbare =>
        have hbare := Bool.eq_false_iff.2 hbare
        unfold arrayPlan at h
        split at h
        · cases h
          exact .array hbare
        · next hdemand =>
          split at h
          · next hget =>
            cases h
            exact .wanted hbare (eq_of_bind_demandOf hdemand) hget
          · cases h

/-! ## Expressions -/

/-- The tag of an expression once its type, or its fault, is found. -/
def Tag.settled (tag : Tag) : Except Fault TypeId → Tag
  | .ok type => { tag with type }
  | .error _ => tag

@[simp] theorem Tag.span_settled (tag : Tag) (found : Except Fault TypeId) :
    (tag.settled found).span = tag.span := by
  cases found <;> rfl

theorem Tag.settled_again {tag tag' : Tag} {found : Except Fault TypeId}
    (h : tag.settled found = tag') : tag'.settled found = tag' := by
  cases found <;> cases h <;> rfl

theorem Expr.settle_eq (rebuild : Tag → Expr) (tag : Tag) (found : Except Fault TypeId) :
    Expr.settle rebuild tag found = (rebuild (tag.settled found), found) := by
  cases found <;> rfl

/-- The expression comes with its type. -/
def Expr.isPlain : Expr → Bool
  | .number .. | .string .. | .boolean .. | .nil .. | .typeName .. | .prototype .. |
    .typeAlias .. => true
  | _ => false

mutual

/-- The rules for an expression and a demand: what becomes of the expression, and what is found. -/
inductive Expr.Checks (vars : VariableArena) :
    Expr → Demand → TypeArena → Expr → Except Fault TypeId → TypeArena → Prop
  | plain {e : Expr} {demand : Demand} {a : TypeArena} : e.isPlain = true →
      Checks vars e demand a e (.ok e.type) a
  | unresolved {name : String} {tag : Tag} {demand : Demand} {a : TypeArena} :
      Checks vars (.unresolved name tag) demand a (.unresolved name tag)
        (.error ⟨tag.span, .unresolved name⟩) a
  | reference {id : VariableId} {tag : Tag} {demand : Demand} {a : TypeArena} :
      Checks vars (.reference id tag) demand a
        (.reference id { tag with type := vars.typeOf id }) (.ok (vars.typeOf id)) a
  | group {inner inner' : Expr} {tag tag' : Tag} {demand : Demand} {found : Except Fault TypeId}
      {a b : TypeArena} : Checks vars inner demand a inner' found b → tag.settled found = tag' →
      Checks vars (.group inner tag) demand a (.group inner' tag') found b
  | entry {id : VariableId} {value value' : Expr} {tag tag' : Tag} {demand : Demand}
      {found : Except Fault TypeId} {a b : TypeArena} :
      Checks vars value demand a value' found b → tag.settled found = tag' →
      Checks vars (.entry id value tag) demand a (.entry id value' tag') found b
  | callee {callee callee' : Expr} {arguments : List Expr} {tag : Tag} {demand : Demand}
      {found : Except Fault TypeId} {f : Fault} {a b : TypeArena} :
      Checks vars callee none a callee' found b →
      found.bind (callPlan b · arguments.length callee'.span tag.span) = .error f →
      Checks vars (.call callee arguments tag) demand a (.call callee' arguments tag) (.error f) b
  | call {callee callee' : Expr} {arguments arguments' : List Expr} {tag tag' : Tag}
      {demand : Demand} {type : TypeId} {plan : CallPlan} {found : Except Fault (List TypeId)}
      {found' : Except Fault TypeId} {a b c : TypeArena} :
      Checks vars callee none a callee' (.ok type) b →
      callPlan b type arguments.length callee'.span tag.span = .ok plan →
      ChecksEach vars (some assignability) arguments plan.demands b arguments' found c →
      found.map (fun _ => plan.result) = found' → tag.settled found' = tag' →
      Checks vars (.call callee arguments tag) demand a (.call callee' arguments' tag') found' c
  | member {object object' : Expr} {name : String} {tag tag' : Tag} {demand : Demand}
      {found found' : Except Fault TypeId} {a b : TypeArena} :
      Checks vars object none a object' found b →
      found.bind (memberType b · name tag.span) = found' → tag.settled found' = tag' →
      Checks vars (.member object name tag) demand a (.member object' name tag') found' b
  | object {object object' key : Expr} {tag : Tag} {demand : Demand} {f : Fault}
      {a b : TypeArena} : Checks vars object none a object' (.error f) b →
      Checks vars (.index object key tag) demand a (.index object' key tag) (.error f) b
  | index {object object' key key' : Expr} {tag tag' : Tag} {demand : Demand} {type : TypeId}
      {found found' : Except Fault TypeId} {a b c : TypeArena} :
      Checks vars object none a object' (.ok type) b → Checks vars key none b key' found c →
      found.bind (fun _ => elementType c type tag.span) = found' → tag.settled found' = tag' →
      Checks vars (.index object key tag) demand a (.index object' key' tag') found' c
  | unplanned {entries : List Expr} {tag : Tag} {demand : Demand} {f : Fault} {a : TypeArena} :
      constructorPlan a vars demand entries tag.span = .error f →
      Checks vars (.constructor entries tag) demand a (.constructor entries tag) (.error f) a
  | entries {entries entries' : List Expr} {tag : Tag} {demand : Demand} {plan : ConstructorPlan}
      {f : Fault} {a b : TypeArena} :
      constructorPlan a vars demand entries tag.span = .ok plan →
      ChecksEach vars plan.report entries plan.demands a entries' (.error f) b →
      Checks vars (.constructor entries tag) demand a (.constructor entries' tag) (.error f) b
  | constructor {entries entries' : List Expr} {tag : Tag} {demand : Demand}
      {plan : ConstructorPlan} {types : List TypeId} {type : TypeId} {a b c : TypeArena} :
      constructorPlan a vars demand entries tag.span = .ok plan →
      ChecksEach vars plan.report entries plan.demands a entries' (.ok types) b →
      plan.result types b = (type, c) →
      Checks vars (.constructor entries tag) demand a (.constructor entries' { tag with type })
        (.ok type) c

/-- The rules for expressions in order, each against its demand. -/
inductive Expr.ChecksEach (vars : VariableArena) : Option Mismatch → List Expr → List Demand →
    TypeArena → List Expr → Except Fault (List TypeId) → TypeArena → Prop
  | nil {report : Option Mismatch} {demands : List Demand} {a : TypeArena} :
      ChecksEach vars report [] demands a [] (.ok []) a
  | fault {report : Option Mismatch} {e e' : Expr} {es : List Expr} {demands : List Demand}
      {f : Fault} {a b : TypeArena} :
      Checks vars e (demands.headD none) a e' (.error f) b →
      ChecksEach vars report (e :: es) demands a (e' :: es) (.error f) b
  | mismatch {report : Option Mismatch} {e e' : Expr} {es : List Expr} {demands : List Demand}
      {type : TypeId} {f : Fault} {a b : TypeArena} :
      Checks vars e (demands.headD none) a e' (.ok type) b →
      mismatch? b report (demands.headD none) type e'.span = some f →
      ChecksEach vars report (e :: es) demands a (e' :: es) (.error f) b
  | cons {report : Option Mismatch} {e e' : Expr} {es es' : List Expr} {demands : List Demand}
      {type : TypeId} {found found' : Except Fault (List TypeId)} {a b c : TypeArena} :
      Checks vars e (demands.headD none) a e' (.ok type) b →
      mismatch? b report (demands.headD none) type e'.span = none →
      ChecksEach vars report es demands.tail b es' found c → found.map (type :: ·) = found' →
      ChecksEach vars report (e :: es) demands a (e' :: es') found' c

end

section

variable {vars : VariableArena}

mutual

/-- The rules lead to what checking gives. -/
theorem Expr.Checks.run {e e' : Expr} {demand : Demand} {found : Except Fault TypeId}
    {a b : TypeArena} :
    e.Checks vars demand a e' found b → e.check vars demand a = ((e', found), b)
  | .plain hplain => by
    cases e with
    | number | string | boolean | nil | typeName | prototype | typeAlias => rfl
    | _ => cases hplain
  | .unresolved => rfl
  | .reference => rfl
  | .group h rfl | .entry h rfl => by
    rw [Expr.check]
    exact (bind_of_run h.run).trans (congrArg (·, b) (Expr.settle_eq ..))
  | .callee h hplan => by
    rw [Expr.check]
    apply (bind_of_run h.run).trans
    apply get_bind_run.trans
    rw [hplan]
    rfl
  | .call h hplan heach hfound rfl => by
    rw [Expr.check]
    apply (bind_of_run h.run).trans
    apply get_bind_run.trans
    dsimp only [Except.bind]
    rw [hplan]
    apply (bind_of_run heach.run).trans
    rw [hfound]
    exact congrArg (·, b) (Expr.settle_eq ..)
  | .member h hfound rfl => by
    rw [Expr.check]
    apply (bind_of_run h.run).trans
    apply get_bind_run.trans
    rw [hfound]
    exact congrArg (·, b) (Expr.settle_eq ..)
  | .object h => by
    rw [Expr.check]
    exact (bind_of_run h.run).trans rfl
  | .index h hkey hfound rfl => by
    rw [Expr.check]
    apply (bind_of_run h.run).trans
    apply (bind_of_run hkey.run).trans
    apply get_bind_run.trans
    rw [hfound]
    exact congrArg (·, b) (Expr.settle_eq ..)
  | .unplanned hplan => by
    rw [Expr.check, get_bind_run, hplan]
    rfl
  | .entries hplan heach => by
    rw [Expr.check, get_bind_run, hplan]
    exact (bind_of_run heach.run).trans rfl
  | .constructor hplan heach hresult => by
    rw [Expr.check, get_bind_run, hplan]
    apply (bind_of_run heach.run).trans
    exact (bind_of_run hresult).trans rfl

theorem Expr.ChecksEach.run {report : Option Mismatch} {es es' : List Expr} {demands : List Demand}
    {found : Except Fault (List TypeId)} {a b : TypeArena} :
    Expr.ChecksEach vars report es demands a es' found b →
      Expr.checkEach vars report es demands a = ((es', found), b)
  | .nil => rfl
  | .fault h => by
    rw [Expr.checkEach]
    exact (bind_of_run h.run).trans rfl
  | .mismatch h hmismatch => by
    rw [Expr.checkEach]
    apply (bind_of_run h.run).trans
    apply get_bind_run.trans
    rw [hmismatch]
    rfl
  | .cons h hmismatch heach hfound => by
    rw [Expr.checkEach]
    apply (bind_of_run h.run).trans
    apply get_bind_run.trans
    rw [hmismatch]
    apply (bind_of_run heach.run).trans
    cases hfound
    rfl

end

mutual

/-- There is a rule for every expression. -/
theorem Expr.checks_total (e : Expr) (demand : Demand) (a : TypeArena) :
    ∃ e' found b, e.Checks vars demand a e' found b := by
  cases e with
  | unresolved name tag => exact ⟨_, _, _, .unresolved⟩
  | reference id tag => exact ⟨_, _, _, .reference⟩
  | group inner tag =>
    obtain ⟨_, _, _, h⟩ := inner.checks_total demand a
    exact ⟨_, _, _, .group h rfl⟩
  | entry id value tag =>
    obtain ⟨_, _, _, h⟩ := value.checks_total demand a
    exact ⟨_, _, _, .entry h rfl⟩
  | call callee arguments tag =>
    obtain ⟨callee', found, b, h⟩ := callee.checks_total none a
    cases hplan : found.bind (callPlan b · arguments.length callee'.span tag.span) with
    | error f => exact ⟨_, _, _, .callee h hplan⟩
    | ok plan =>
      obtain ⟨_, _, _, heach⟩ :=
        Expr.checksEach_total (some assignability) arguments plan.demands b
      cases found with
      | error f => cases hplan
      | ok type => exact ⟨_, _, _, .call h hplan heach rfl rfl⟩
  | member object name tag =>
    obtain ⟨_, _, _, h⟩ := object.checks_total none a
    exact ⟨_, _, _, .member h rfl rfl⟩
  | index object key tag =>
    obtain ⟨object', found, b, h⟩ := object.checks_total none a
    cases found with
    | error f => exact ⟨_, _, _, .object h⟩
    | ok type =>
      obtain ⟨_, _, _, hkey⟩ := key.checks_total none b
      exact ⟨_, _, _, .index h hkey rfl rfl⟩
  | constructor entries tag =>
    cases hplan : constructorPlan a vars demand entries tag.span with
    | error f => exact ⟨_, _, _, .unplanned hplan⟩
    | ok plan =>
      obtain ⟨_, found, b, heach⟩ := Expr.checksEach_total plan.report entries plan.demands a
      cases found with
      | error f => exact ⟨_, _, _, .entries hplan heach⟩
      | ok types => exact ⟨_, _, _, .constructor hplan heach rfl⟩
  | _ => exact ⟨_, _, _, .plain rfl⟩

theorem Expr.checksEach_total (report : Option Mismatch) (es : List Expr) (demands : List Demand)
    (a : TypeArena) : ∃ es' found b, Expr.ChecksEach vars report es demands a es' found b := by
  cases es with
  | nil => exact ⟨_, _, _, .nil⟩
  | cons e es =>
    obtain ⟨e', found, b, h⟩ := e.checks_total (demands.headD none) a
    cases found with
    | error f => exact ⟨_, _, _, .fault h⟩
    | ok type =>
      cases hmismatch : mismatch? b report (demands.headD none) type e'.span with
      | some f => exact ⟨_, _, _, .mismatch h hmismatch⟩
      | none =>
        obtain ⟨_, _, _, heach⟩ := Expr.checksEach_total report es demands.tail b
        exact ⟨_, _, _, .cons h hmismatch heach rfl⟩

end

/-- The rules for expressions say what checking does. -/
theorem Expr.checks_iff {e e' : Expr} {demand : Demand} {found : Except Fault TypeId}
    {a b : TypeArena} :
    e.check vars demand a = ((e', found), b) ↔ e.Checks vars demand a e' found b := by
  refine ⟨fun h => ?_, Checks.run⟩
  obtain ⟨_, _, _, hrules⟩ := e.checks_total demand a
  cases h.symm.trans hrules.run
  exact hrules

theorem Expr.checksEach_iff {report : Option Mismatch} {es es' : List Expr}
    {demands : List Demand} {found : Except Fault (List TypeId)} {a b : TypeArena} :
    Expr.checkEach vars report es demands a = ((es', found), b) ↔
      Expr.ChecksEach vars report es demands a es' found b := by
  refine ⟨fun h => ?_, ChecksEach.run⟩
  obtain ⟨_, _, _, hrules⟩ := Expr.checksEach_total report es demands a
  cases h.symm.trans hrules.run
  exact hrules

end

/-! ## Constructors in an expression -/

/-- The expression with other parts. -/
def Expr.withParts : Expr → List Expr → Expr
  | .call _ _ tag, callee :: arguments => .call callee arguments tag
  | .member _ name tag, [object] => .member object name tag
  | .index _ _ tag, [object, key] => .index object key tag
  | .group _ tag, [inner] => .group inner tag
  | .entry id _ tag, [value] => .entry id value tag
  | e, _ => e

mutual

/-- The rules for the constructors in an expression. -/
inductive Expr.Amends (vars : VariableArena) :
    Expr → TypeArena → Expr → Except Fault Unit → TypeArena → Prop
  | constructor {entries : List Expr} {tag : Tag} {e' : Expr} {found : Except Fault TypeId}
      {found' : Except Fault Unit} {a b : TypeArena} :
      (Expr.constructor entries tag).Checks vars none a e' found b →
      found.map (fun _ => ()) = found' → Amends vars (.constructor entries tag) a e' found' b
  | parts (e : Expr) {parts : List Expr} {found : Except Fault Unit} {a b : TypeArena} :
      AmendsAll vars e.parts a parts found b → Amends vars e a (e.withParts parts) found b

/-- The rules for the constructors in expressions. -/
inductive Expr.AmendsAll (vars : VariableArena) :
    List Expr → TypeArena → List Expr → Except Fault Unit → TypeArena → Prop
  | nil {a : TypeArena} : AmendsAll vars [] a [] (.ok ()) a
  | fault {e e' : Expr} {es : List Expr} {f : Fault} {a b : TypeArena} :
      Amends vars e a e' (.error f) b → AmendsAll vars (e :: es) a (e' :: es) (.error f) b
  | cons {e e' : Expr} {es es' : List Expr} {found : Except Fault Unit} {a b c : TypeArena} :
      Amends vars e a e' (.ok ()) b → AmendsAll vars es b es' found c →
      AmendsAll vars (e :: es) a (e' :: es') found c

end

section

variable {vars : VariableArena}

theorem Expr.Amends.single {e e' : Expr} {found : Except Fault Unit} {a b : TypeArena}
    (h : e.Amends vars a e' found b) :
    Expr.AmendsAll vars [e] a [e'] found b := by
  cases found with
  | error f => exact .fault h
  | ok _ => exact .cons h .nil

mutual

/-- Checking the constructors of an expression goes by the rules. -/
theorem Expr.amends_of_run (e : Expr) {e' : Expr} {found : Except Fault Unit} {a b : TypeArena}
    (h : e.checkConstructors vars a = ((e', found), b)) : e.Amends vars a e' found b := by
  cases e with
  | constructor entries tag =>
    rw [Expr.checkConstructors] at h
    obtain ⟨⟨e', found⟩, b₁, hcheck, h⟩ := run_bind h
    cases h
    exact .constructor (Expr.checks_iff.1 hcheck) rfl
  | call callee arguments tag =>
    rw [Expr.checkConstructors] at h
    obtain ⟨⟨callee', found⟩, b₁, hcallee, h⟩ := run_bind h
    have hcallee := callee.amends_of_run hcallee
    cases found with
    | error f =>
      cases h
      exact .parts (.call callee arguments tag) (.fault hcallee)
    | ok _ =>
      obtain ⟨⟨arguments', found'⟩, b₂, hall, h⟩ := run_bind h
      cases h
      have hall := Expr.amendsAll_of_run arguments hall
      exact .parts (.call callee arguments tag) (.cons hcallee hall)
  | member object name tag =>
    rw [Expr.checkConstructors] at h
    obtain ⟨⟨object', found⟩, b₁, hobject, h⟩ := run_bind h
    cases h
    exact .parts (.member object name tag) (object.amends_of_run hobject).single
  | index object key tag =>
    rw [Expr.checkConstructors] at h
    obtain ⟨⟨object', found⟩, b₁, hobject, h⟩ := run_bind h
    have hobject := object.amends_of_run hobject
    cases found with
    | error f =>
      cases h
      exact .parts (.index object key tag) (.fault hobject)
    | ok _ =>
      obtain ⟨⟨key', found'⟩, b₂, hkey, h⟩ := run_bind h
      cases h
      exact .parts (.index object key tag) (.cons hobject (key.amends_of_run hkey).single)
  | group inner tag =>
    rw [Expr.checkConstructors] at h
    obtain ⟨⟨inner', found⟩, b₁, hinner, h⟩ := run_bind h
    cases h
    exact .parts (.group inner tag) (inner.amends_of_run hinner).single
  | entry id value tag =>
    rw [Expr.checkConstructors] at h
    obtain ⟨⟨value', found⟩, b₁, hvalue, h⟩ := run_bind h
    cases h
    exact .parts (.entry id value tag) (value.amends_of_run hvalue).single
  | _ =>
    cases h
    exact .parts _ .nil

theorem Expr.amendsAll_of_run (es : List Expr) {es' : List Expr} {found : Except Fault Unit}
    {a b : TypeArena} (h : Expr.checkConstructorsAll vars es a = ((es', found), b)) :
    Expr.AmendsAll vars es a es' found b := by
  cases es with
  | nil =>
    cases h
    exact .nil
  | cons e es =>
    rw [Expr.checkConstructorsAll] at h
    obtain ⟨⟨e', found⟩, b₁, hcheck, h⟩ := run_bind h
    have hcheck := e.amends_of_run hcheck
    cases found with
    | error f =>
      cases h
      exact .fault hcheck
    | ok _ =>
      obtain ⟨⟨es', found'⟩, b₂, hall, h⟩ := run_bind h
      cases h
      exact .cons hcheck (Expr.amendsAll_of_run es hall)

end

end

/-! ## Statements and modules -/

/-- The statement is taken at its word. -/
def Stmt.isPlain : Stmt → Bool
  | .externVariable .. | .externFunction .. | .imports .. => true
  | _ => false

/-- Why so many values for so many variables are refused at once, if they are. -/
def localsFault? (config : Config) (targets values : Nat) : Option Cause :=
  if targets < values then some .tooManyValues
  else if values < targets && !config.imbalancedLocals then some .tooFewValues
  else none

/-- There is a variable for each value, and a value for each, unless it may be left out. -/
theorem localsFault?_eq_none_iff {config : Config} {m n : Nat} :
    localsFault? config m n = none ↔ n ≤ m ∧ (n = m ∨ config.imbalancedLocals = true) := by
  grind [localsFault?]

mutual

/-- The rules for a statement: what becomes of the statement, and whether a fault is found. -/
inductive Stmt.Checks (config : Config) (vars : VariableArena) :
    Stmt → TypeArena → Stmt → Except Fault Unit → TypeArena → Prop
  | plain {m : Stmt} {a : TypeArena} : m.isPlain = true → Checks config vars m a m (.ok ()) a
  | expression {e e' : Expr} {span : Span} {found : Except Fault TypeId}
      {found' : Except Fault Unit} {a b : TypeArena} : e.Checks vars none a e' found b →
      found.map (fun _ => ()) = found' →
      Checks config vars (.expression e span) a (.expression e' span) found' b
  | imbalanced {targets : List VariableId} {values : List Expr} {span : Span} {cause : Cause}
      {a : TypeArena} : localsFault? config targets.length values.length = some cause →
      Checks config vars (.locals targets values span) a (.locals targets values span)
        (.error ⟨valuesSpan values span, cause⟩) a
  | locals {targets : List VariableId} {values values' : List Expr} {span : Span}
      {found : Except Fault (List TypeId)} {found' : Except Fault Unit} {a b : TypeArena} :
      localsFault? config targets.length values.length = none →
      Expr.ChecksEach vars (some .valueMismatch) (padValues targets.length values span)
        (targets.map fun id => demandOf (vars.typeOf id)) a values' found b →
      found.map (fun _ => ()) = found' →
      Checks config vars (.locals targets values span) a (.locals targets values' span) found' b
  | exportStmt {item item' : Stmt} {span : Span} {found : Except Fault Unit} {a b : TypeArena} :
      Checks config vars item a item' found b →
      Checks config vars (.exportStmt item span) a (.exportStmt item' span) found b
  | exportExpr {item item' : Expr} {span : Span} {found : Except Fault Unit} {a b : TypeArena} :
      item.checkConstructors vars a = ((item', found), b) →
      Checks config vars (.exportExpr item span) a (.exportExpr item' span) found b
  | block {body body' : List Stmt} {scope : Scope} {span : Span} {found : Except Fault Unit}
      {a b : TypeArena} : ChecksAll config vars body a body' found b →
      Checks config vars (.block ⟨body, scope, span⟩) a (.block ⟨body', scope, span⟩) found b

/-- The rules for statements in order. -/
inductive Stmt.ChecksAll (config : Config) (vars : VariableArena) :
    List Stmt → TypeArena → List Stmt → Except Fault Unit → TypeArena → Prop
  | nil {a : TypeArena} : ChecksAll config vars [] a [] (.ok ()) a
  | fault {m m' : Stmt} {ms : List Stmt} {f : Fault} {a b : TypeArena} :
      Checks config vars m a m' (.error f) b →
      ChecksAll config vars (m :: ms) a (m' :: ms) (.error f) b
  | cons {m m' : Stmt} {ms ms' : List Stmt} {found : Except Fault Unit} {a b c : TypeArena} :
      Checks config vars m a m' (.ok ()) b → ChecksAll config vars ms b ms' found c →
      ChecksAll config vars (m :: ms) a (m' :: ms') found c

end

section

variable {config : Config} {vars : VariableArena}

/-- A declaration is checked once the numbers are right. -/
theorem checkLocals_eq (targets : List VariableId) (values : List Expr) (span : Span) :
    checkLocals config vars targets values span =
      (localsFault? config targets.length values.length).elim
        (do
          let x ← Expr.checkEach vars (some .valueMismatch) (padValues targets.length values span)
            (targets.map fun id => demandOf (vars.typeOf id))
          return (x.1, x.2.map fun _ => ()))
        fun cause => return (values, .error ⟨valuesSpan values span, cause⟩) := by
  unfold checkLocals localsFault?
  split
  · rfl
  · split <;> rfl

mutual

/-- The rules for statements lead to what checking gives. -/
theorem Stmt.Checks.run {m m' : Stmt} {found : Except Fault Unit} {a b : TypeArena} :
    m.Checks config vars a m' found b → m.check config vars a = ((m', found), b)
  | .plain hplain => by
    cases m with
    | externVariable | externFunction | imports => rfl
    | _ => cases hplain
  | .expression h hfound => by
    rw [Stmt.check]
    cases hfound
    exact (bind_of_run h.run).trans rfl
  | .imbalanced hfault => by
    rw [Stmt.check, checkLocals_eq, hfault]
    rfl
  | .locals hfault h hfound => by
    rw [Stmt.check, checkLocals_eq, hfault, Option.elim_none, bind_assoc]
    cases hfound
    exact (bind_of_run h.run).trans rfl
  | .exportStmt h => by
    rw [Stmt.check]
    exact (bind_of_run h.run).trans rfl
  | .exportExpr h => by
    rw [Stmt.check]
    exact (bind_of_run h).trans rfl
  | .block h => by
    rw [Stmt.check, Block.check, bind_assoc]
    exact (bind_of_run h.run).trans rfl

theorem Stmt.ChecksAll.run {ms ms' : List Stmt} {found : Except Fault Unit} {a b : TypeArena} :
    Stmt.ChecksAll config vars ms a ms' found b →
      Stmt.checkAll config vars ms a = ((ms', found), b)
  | .nil => rfl
  | .fault h => by
    rw [Stmt.checkAll]
    exact (bind_of_run h.run).trans rfl
  | .cons h hall => by
    rw [Stmt.checkAll]
    apply (bind_of_run h.run).trans
    exact (bind_of_run hall.run).trans rfl

end

mutual

/-- There is a rule for every statement. -/
theorem Stmt.checks_total (m : Stmt) (a : TypeArena) :
    ∃ m' found b, m.Checks config vars a m' found b := by
  cases m with
  | expression e span =>
    obtain ⟨_, _, _, h⟩ := e.checks_total none a
    exact ⟨_, _, _, .expression h rfl⟩
  | locals targets values span =>
    cases hfault : localsFault? config targets.length values.length with
    | some cause => exact ⟨_, _, _, .imbalanced hfault⟩
    | none =>
      obtain ⟨_, _, _, h⟩ := Expr.checksEach_total (some .valueMismatch)
        (padValues targets.length values span) (targets.map fun id => demandOf (vars.typeOf id)) a
      exact ⟨_, _, _, .locals hfault h rfl⟩
  | exportStmt item span =>
    obtain ⟨_, _, _, h⟩ := item.checks_total a
    exact ⟨_, _, _, .exportStmt h⟩
  | exportExpr item span => exact ⟨_, _, _, .exportExpr rfl⟩
  | block block =>
    cases block with
    | mk body scope span =>
      obtain ⟨_, _, _, h⟩ := Stmt.checksAll_total body a
      exact ⟨_, _, _, .block h⟩
  | _ => exact ⟨_, _, _, .plain rfl⟩

theorem Stmt.checksAll_total (ms : List Stmt) (a : TypeArena) :
    ∃ ms' found b, Stmt.ChecksAll config vars ms a ms' found b := by
  cases ms with
  | nil => exact ⟨_, _, _, .nil⟩
  | cons m ms =>
    obtain ⟨_, found, b, h⟩ := m.checks_total a
    cases found with
    | error f => exact ⟨_, _, _, .fault h⟩
    | ok _ =>
      obtain ⟨_, _, _, hall⟩ := Stmt.checksAll_total ms b
      exact ⟨_, _, _, .cons h hall⟩

end

variable {found : Except Fault Unit} {a b : TypeArena}

/-- The rules for statements say what checking does. -/
theorem Stmt.checksAll_iff {ms ms' : List Stmt} :
    Stmt.checkAll config vars ms a = ((ms', found), b) ↔
      Stmt.ChecksAll config vars ms a ms' found b := by
  refine ⟨fun h => ?_, ChecksAll.run⟩
  obtain ⟨_, _, _, hrules⟩ := Stmt.checksAll_total ms a
  cases h.symm.trans hrules.run
  exact hrules

theorem Stmt.checks_iff {m m' : Stmt} :
    m.check config vars a = ((m', found), b) ↔ m.Checks config vars a m' found b := by
  refine ⟨fun h => ?_, Checks.run⟩
  obtain ⟨_, _, _, hrules⟩ := m.checks_total a
  cases h.symm.trans hrules.run
  exact hrules

theorem Module.check_iff {m m' : Module} : m.check config vars a = ((m', found), b) ↔
    ∃ body, Stmt.ChecksAll config vars m.statements a body found b ∧
      m' = m.withStatements body := by
  obtain ⟨file, body, scope, span⟩ := m
  rw [Module.check, Block.check, bind_assoc]
  constructor
  · intro h
    obtain ⟨⟨body', found⟩, b₁, hcheck, h⟩ := run_bind h
    cases h
    exact ⟨body', Stmt.checksAll_iff.1 hcheck, rfl⟩
  · rintro ⟨body', h, rfl⟩
    exact (bind_of_run h.run).trans rfl

end

end TypedLua
