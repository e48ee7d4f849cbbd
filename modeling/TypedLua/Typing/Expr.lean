import TypedLua.Typing.Demand

/-!
# TypedLua.Typing.Expr

Typing expressions.  Checking an expression gives it back with its parts and itself tagged with
their types, together with its type or the first fault; what comes after a fault is left as it was.
-/

namespace TypedLua

open Text Typing

/-- Tag an expression with its type, unless it is at fault. -/
def Expr.settle (rebuild : Tag → Expr) (tag : Tag) :
    Except Fault TypeId → Expr × Except Fault TypeId
  | .ok type => (rebuild { tag with type }, .ok type)
  | .error f => (rebuild tag, .error f)

mutual

/-- Check an expression of which the context demands a type. -/
def Expr.check (vars : VariableArena) :
    Expr → Demand → StateM TypeArena (Expr × Except Fault TypeId)
  | .unresolved name tag, _ =>
    return (.unresolved name tag, .error ⟨tag.span, .unresolved name⟩)
  | .reference id tag, _ => return Expr.settle (.reference id) tag (.ok (vars.typeOf id))
  | .group inner tag, demand => do
    let (inner, found) ← inner.check vars demand
    return Expr.settle (.group inner) tag found
  | .entry id value tag, demand => do
    let (value, found) ← value.check vars demand
    return Expr.settle (.entry id value) tag found
  | .call callee arguments tag, _ => do
    let (callee, found) ← callee.check vars none
    let a ← get
    match found.bind (callPlan a · arguments.length callee.span tag.span) with
    | .error f => return (.call callee arguments tag, .error f)
    | .ok plan =>
      let (arguments, found) ←
        Expr.checkEach vars (some assignability) arguments plan.demands
      return Expr.settle (.call callee arguments) tag (found.map fun _ => plan.result)
  | .member object name tag, _ => do
    let (object, found) ← object.check vars none
    let a ← get
    return Expr.settle (.member object name) tag (found.bind (memberType a · name tag.span))
  | .index object key tag, _ => do
    let (object, found) ← object.check vars none
    match found with
    | .error f => return (.index object key tag, .error f)
    | .ok type =>
      let (key, found) ← key.check vars none
      let a ← get
      return Expr.settle (.index object key) tag (found.bind fun _ => elementType a type tag.span)
  | .constructor entries tag, demand => do
    match constructorPlan (← get) vars demand entries tag.span with
    | .error f => return (.constructor entries tag, .error f)
    | .ok plan =>
      let (entries, found) ← Expr.checkEach vars plan.report entries plan.demands
      match found with
      | .error f => return (.constructor entries tag, .error f)
      | .ok types => return Expr.settle (.constructor entries) tag (.ok (← plan.result types))
  | e, _ => return (e, .ok e.type)

/-- Check expressions in order, each against its demand.  With `report`, a type that does not meet
its demand is a fault. -/
def Expr.checkEach (vars : VariableArena) (report : Option Mismatch) :
    List Expr → List Demand → StateM TypeArena (List Expr × Except Fault (List TypeId))
  | [], _ => return ([], .ok [])
  | e :: es, demands => do
    let demand := demands.headD none
    let (e, found) ← e.check vars demand
    match found with
    | .error f => return (e :: es, .error f)
    | .ok type =>
      match mismatch? (← get) report demand type e.span with
      | some f => return (e :: es, .error f)
      | none =>
        let (es, found) ← Expr.checkEach vars report es demands.tail
        return (e :: es, found.map (type :: ·))

end

end TypedLua
