import TypedLua.Number.Binary64
import TypedLua.Scope.Variable

/-!
# TypedLua.Tree.Expr

Expressions.  Every expression is tagged with the place where it stands and with its type, which is
`any` until the typing of the module settles it.
-/

namespace TypedLua

open Text Number

/-! ## §1. The tree -/

/-- Where an expression stands and what its type is. -/
structure Tag where
  /-- Its place. -/
  span : Span
  /-- Its type. -/
  type : TypeId
deriving DecidableEq, Repr, Inhabited

/-- The head of a function declaration. -/
structure Prototype where
  /-- The name of the function. -/
  name : String
  /-- The variable that stands for it. -/
  function : VariableId
  /-- Its parameters, less a variadic one. -/
  parameters : List VariableId
  /-- What it returns. -/
  returns : List TypeId
  /-- Its variadic parameter. -/
  vararg : Option VariableId
  /-- Its place and function type. -/
  tag : Tag
deriving DecidableEq, Repr, Inhabited

/-- An expression. -/
inductive Expr where
  /-- A number. -/
  | number (value : Binary64) (tag : Tag)
  /-- A string. -/
  | string (value : String) (tag : Tag)
  /-- A truth value. -/
  | boolean (value : Bool) (tag : Tag)
  /-- The value `nil`. -/
  | nil (tag : Tag)
  /-- A name without a meaning. -/
  | unresolved (name : String) (tag : Tag)
  /-- A variable. -/
  | reference (id : VariableId) (tag : Tag)
  /-- A type used as a value. -/
  | typeName (name : String) (tag : Tag)
  /-- A call. -/
  | call (callee : Expr) (arguments : List Expr) (tag : Tag)
  /-- A property of a value. -/
  | member (object : Expr) (name : String) (tag : Tag)
  /-- An element of a value. -/
  | index (object key : Expr) (tag : Tag)
  /-- An expression in parentheses. -/
  | group (inner : Expr) (tag : Tag)
  /-- A table or array constructor. -/
  | constructor (entries : List Expr) (tag : Tag)
  /-- A named entry of a constructor. -/
  | entry (id : VariableId) (value : Expr) (tag : Tag)
  /-- The head of a function declaration. -/
  | prototype (head : Prototype)
  /-- A definition of a type. -/
  | typeAlias (name : String) (tag : Tag)
deriving Repr, Inhabited

namespace Expr

/-! ## §2. Tags -/

/-- The tag of an expression. -/
def tag : Expr → Tag
  | number _ t | string _ t | boolean _ t | nil t | unresolved _ t | reference _ t
  | typeName _ t | call _ _ t | member _ _ t | index _ _ t | group _ t | constructor _ t
  | entry _ _ t | typeAlias _ t => t
  | prototype p => p.tag

/-- Where an expression stands. -/
def span (e : Expr) : Span := e.tag.span

/-- The type of an expression. -/
def type (e : Expr) : TypeId := e.tag.type

/-- The expression with another type. -/
def setType (type : TypeId) : Expr → Expr
  | number v t => number v { t with type }
  | string v t => string v { t with type }
  | boolean v t => boolean v { t with type }
  | nil t => nil { t with type }
  | unresolved n t => unresolved n { t with type }
  | reference id t => reference id { t with type }
  | typeName n t => typeName n { t with type }
  | call f xs t => call f xs { t with type }
  | member e n t => member e n { t with type }
  | index e k t => index e k { t with type }
  | group e t => group e { t with type }
  | constructor es t => constructor es { t with type }
  | entry id e t => entry id e { t with type }
  | prototype p => prototype { p with tag := { p.tag with type } }
  | typeAlias n t => typeAlias n { t with type }

@[simp] theorem type_setType (type : TypeId) (e : Expr) : (e.setType type).type = type := by
  cases e <;> rfl

@[simp] theorem span_setType (type : TypeId) (e : Expr) : (e.setType type).span = e.span := by
  cases e <;> rfl

/-! ## §3. Forms -/

/-- Whether the expression is a literal or a constructor. -/
def isLiteral : Expr → Bool
  | number .. | string .. | boolean .. | nil .. | constructor .. => true
  | _ => false

/-- Whether the expression is a call. -/
def isCall : Expr → Bool
  | call .. => true
  | _ => false

/-- Whether the expression is a named entry. -/
def isEntry : Expr → Bool
  | entry .. => true
  | _ => false

mutual

/-- Apply a function to every number literal. -/
def mapNumbers (f : Binary64 → Binary64) : Expr → Expr
  | number v t => number (f v) t
  | call callee arguments t => call (callee.mapNumbers f) (mapNumbersAll f arguments) t
  | member object name t => member (object.mapNumbers f) name t
  | index object key t => index (object.mapNumbers f) (key.mapNumbers f) t
  | group inner t => group (inner.mapNumbers f) t
  | constructor entries t => constructor (mapNumbersAll f entries) t
  | entry id value t => entry id (value.mapNumbers f) t
  | e => e

/-- Apply a function to every number literal of the expressions. -/
def mapNumbersAll (f : Binary64 → Binary64) : List Expr → List Expr
  | [] => []
  | e :: es => e.mapNumbers f :: mapNumbersAll f es

end

end Expr

end TypedLua
