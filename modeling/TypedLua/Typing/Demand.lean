import TypedLua.Fault
import TypedLua.Tree.Expr
import TypedLua.Types.Compatibility
import TypedLua.Types.Display

/-!
# TypedLua.Typing.Demand

What calls and constructors demand of the expressions inside them.  A demand is the type that the
context wants, or nothing where any type will do.
-/

namespace TypedLua.Typing

open Text

/-- The type that the context wants, if it wants one. -/
abbrev Demand := Option TypeId

/-- Demand a type; `any` is no demand. -/
def demandOf (id : TypeId) : Demand := if id.isAny then none else some id

/-- How a value of the wrong type is reported, given the texts of the wanted type and its own. -/
abbrev Mismatch := String → String → Cause

/-- A value where another type is needed. -/
def assignability : Mismatch := fun wanted found => .notAssignable found wanted

/-- The fault of a value at `span` whose type does not meet a demand. -/
def mismatch? (a : TypeArena) (report : Option Mismatch) (demand : Demand) (type : TypeId)
    (span : Span) : Option Fault :=
  match report, demand with
  | some cause, some wanted =>
    if a.compatible wanted type then none
    else some ⟨span, cause (a.display wanted) (a.display type)⟩
  | _, _ => none

/-! ## §1. Calls -/

/-- The parameters of a function that are given one by one, and the element type of a variadic one
at the end. -/
def splitVariadic (a : TypeArena) (parameters : List TypeId) : List TypeId × Option TypeId :=
  match parameters.getLast?.bind a.get? with
  | some (.vararg element) => (parameters.dropLast, some element)
  | _ => (parameters, none)

/-- What a call demands of its `count` arguments, and the type of its result. -/
structure CallPlan where
  /-- The demands, in order. -/
  demands : List Demand
  /-- The type of the result. -/
  result : TypeId

/-- What a call at `span` of something of the given type demands.  Anything may be done with
`any`. -/
def callPlan (a : TypeArena) (callee : TypeId) (count : Nat) (calleeSpan span : Span) :
    Except Fault CallPlan :=
  match a.get? callee with
  | some (.function parameters returns) =>
    let (fixed, rest) := splitVariadic a parameters
    if count < fixed.length || (rest.isNone && fixed.length < count) then
      .error ⟨span, .argumentCount fixed.length count⟩
    else
      .ok
        { demands := fixed.map demandOf ++
            List.replicate (count - fixed.length) (rest.bind demandOf)
          result := returns.head?.getD Primitive.void.typeId }
  | _ =>
    if callee.isAny then .ok { demands := List.replicate count none, result := .any }
    else .error ⟨calleeSpan, .notCallable (a.display callee)⟩

/-! ## §2. Indexing -/

/-- The type of a property of something of the given type. -/
def memberType (a : TypeArena) (object : TypeId) (name : String) (span : Span) :
    Except Fault TypeId :=
  if object.isAny then .ok object
  else
    match (a.get? object).bind (·.property? name) with
    | some p => .ok p.type
    | none => .error ⟨span, .missingProperty name (a.display object)⟩

/-- The type of an element of something of the given type. -/
def elementType (a : TypeArena) (object : TypeId) (span : Span) : Except Fault TypeId :=
  match a.get? object with
  | some (.array element) => .ok element
  | some (.table _) | some (.interface ..) => .ok .any
  | _ => if object.isAny then .ok object else .error ⟨span, .notIndexable (a.display object)⟩

/-! ## §3. Constructors -/

/-- What a constructor demands of its entries, and how its type follows from theirs. -/
structure ConstructorPlan where
  /-- The demands, in order. -/
  demands : List Demand := []
  /-- How an entry of the wrong type is reported, if it is refused. -/
  report : Option Mismatch := none
  /-- The type of the constructor, given those of its entries. -/
  result : List TypeId → StateM TypeArena TypeId

/-- The names of the entries of a table constructor. -/
def entryNames (vars : VariableArena) (entries : List Expr) : List String :=
  entries.filterMap fun
    | .entry id _ _ => some (vars.nameOf id)
    | _ => none

/-- The type of a table with the given entries: the wanted interface if it fits the entries, and
otherwise a table of exactly them. -/
def tableResult (demand : Demand) (wanted : Option Shape) (names : List String)
    (types : List TypeId) : StateM TypeArena TypeId := do
  let properties := (names.zip types).map fun (name, type) => (⟨name, type, false⟩ : Property)
  let table ← TypeArena.intern (.table properties)
  match demand, wanted with
  | some id, some (.interface _ _ properties) =>
    let shape ← TypeArena.intern (.table properties)
    if (← get).compatible shape table then return id else return table
  | _, _ => return table

/-- The plan for a table: an entry is to have the type of the wanted property of its name. -/
def tablePlan (a : TypeArena) (vars : VariableArena) (demand : Demand)
    (entries : List Expr) : ConstructorPlan :=
  let wanted := demand.bind a.get?
  let names := entryNames vars entries
  { demands := names.map fun name =>
      (wanted.bind (·.property? name)).bind fun p => demandOf p.type
    result := tableResult demand wanted names }

/-- The element type of an array whose elements have the given types. -/
def commonType : List TypeId → TypeId
  | [] => .any
  | t :: ts => if ts.all (· == t) then t else .any

/-- The plan for an array. -/
def arrayPlan (a : TypeArena) (demand : Demand) (count : Nat) (span : Span) :
    Except Fault ConstructorPlan :=
  match demand.bind demandOf with
  | none =>
    .ok
      { demands := List.replicate count none
        result := fun types => TypeArena.intern (.array (commonType types)) }
  | some id =>
    match a.get? id with
    | some (.array element) =>
      .ok
        { demands := List.replicate count (demandOf element)
          report := some assignability
          result := fun _ => return id }
    | _ => .error ⟨span, .notAnArray (a.display id)⟩

/-- The plan for a constructor without entries, which is an array or a table as the context
wants. -/
def emptyPlan (a : TypeArena) (vars : VariableArena) (demand : Demand) : ConstructorPlan :=
  match demand, demand.bind a.get? with
  | some id, some (.array _) => { result := fun _ => return id }
  | some _, some (.table _) => tablePlan a vars demand []
  | some _, some (.interface ..) => tablePlan a vars demand []
  | _, _ => { result := fun _ => return Primitive.unknown.typeId }

/-- The plan for a constructor at `span`.  Named and bare entries do not mix. -/
def constructorPlan (a : TypeArena) (vars : VariableArena) (demand : Demand)
    (entries : List Expr) (span : Span) : Except Fault ConstructorPlan :=
  if entries.isEmpty then .ok (emptyPlan a vars demand)
  else if entries.all Expr.isEntry then .ok (tablePlan a vars demand entries)
  else if entries.any Expr.isEntry then .error ⟨span, .mixedConstructor⟩
  else arrayPlan a demand entries.length span

end TypedLua.Typing
