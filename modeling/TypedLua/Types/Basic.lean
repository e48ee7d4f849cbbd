/-!
# TypedLua.Types.Basic

Types refer to each other by id.  A shape is one layer of a type: what kind of type it is and the
ids of its parts.
-/

namespace TypedLua

/-! ## §1. Ids and primitives -/

/-- The id of a type in an arena: its place in the order of creation. -/
structure TypeId where
  /-- The place. -/
  index : Nat
deriving DecidableEq, Repr, Inhabited

/-- The types that every program has. -/
inductive Primitive where
  | string | number | boolean | any | nil | void | unknown
deriving DecidableEq, Repr, Inhabited

namespace Primitive

/-- The primitives in the order of their ids. -/
def all : List Primitive := [string, number, boolean, any, nil, void, unknown]

/-- The name of a primitive. -/
def name : Primitive → String
  | string => "string"
  | number => "number"
  | boolean => "boolean"
  | any => "any"
  | nil => "nil"
  | void => "void"
  | unknown => "unknown"

/-- The id of a primitive, the same in every arena. -/
def typeId : Primitive → TypeId
  | string => ⟨0⟩
  | number => ⟨1⟩
  | boolean => ⟨2⟩
  | any => ⟨3⟩
  | nil => ⟨4⟩
  | void => ⟨5⟩
  | unknown => ⟨6⟩

/-- The id of a primitive is its place in the order. -/
theorem all_getElem?_typeId (p : Primitive) : all[p.typeId.index]? = some p := by
  cases p <;> rfl

end Primitive

namespace TypeId

/-- The id as it is named on its own. -/
def display (id : TypeId) : String := s!"TypeId({id.index})"

/-- The type of a value about which nothing is known or demanded. -/
def any : TypeId := Primitive.any.typeId

/-- Whether the id is that of `any`. -/
def isAny (id : TypeId) : Bool := id == any

end TypeId

/-! ## §2. Shapes -/

/-- A named part of a table or interface. -/
structure Property where
  /-- Its name. -/
  name : String
  /-- Its type. -/
  type : TypeId
  /-- Whether a value may lack it. -/
  optional : Bool
deriving DecidableEq, Repr, Inhabited

/-- The first property of the given name. -/
def findProperty (properties : List Property) (name : String) : Option Property :=
  properties.find? fun p => p.name == name

/-- One layer of a type. -/
inductive Shape where
  /-- A primitive. -/
  | primitive (p : Primitive)
  /-- A parameter of an interface. -/
  | generic (name : String)
  /-- An array of elements of one type. -/
  | array (element : TypeId)
  /-- Any number of values of one type, at the end of a list. -/
  | vararg (element : TypeId)
  /-- A function. -/
  | function (arguments returns : List TypeId)
  /-- A table with the given properties. -/
  | table (properties : List Property)
  /-- A named interface, declared with parameters or instantiated with arguments. -/
  | interface (name : String) (generics : List TypeId) (properties : List Property)
deriving DecidableEq, Repr, Inhabited

namespace Shape

/-- The ids of the parts, from left to right. -/
def parts : Shape → List TypeId
  | primitive _ => []
  | generic _ => []
  | array element => [element]
  | vararg element => [element]
  | function arguments returns => arguments ++ returns
  | table ps => ps.map Property.type
  | interface _ generics ps => generics ++ ps.map Property.type

/-- The properties of a table or interface. -/
def properties : Shape → List Property
  | table ps => ps
  | interface _ _ ps => ps
  | _ => []

/-- The property of the given name, of a table or interface. -/
def property? (s : Shape) (name : String) : Option Property := findProperty s.properties name

/-- Whether the shape is the given primitive. -/
def isPrimitive (s : Shape) (p : Primitive) : Bool := s == primitive p

/-- The arguments and returns of a function. -/
def asFunction? : Shape → Option (List TypeId × List TypeId)
  | function arguments returns => some (arguments, returns)
  | _ => none

/-- The element type of an array. -/
def asArray? : Shape → Option TypeId
  | array element => some element
  | _ => none

/-- Whether the shape is variadic. -/
def isVararg : Shape → Bool
  | vararg _ => true
  | _ => false

end Shape

end TypedLua
