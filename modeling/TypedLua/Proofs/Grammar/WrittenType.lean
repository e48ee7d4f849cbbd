import TypedLua.Grammar.TypeExpr
import TypedLua.Proofs.Grammar.Ahead
import TypedLua.Proofs.Types.Nesting

/-!
# Grammar.WrittenType

Types as they are written.  An annotation is spelled as a list of words, and stands for a structure,
given what names stand for.  All ways to write a type are there, as long as names take no type
arguments: properties with either separator, functions without a return type, and returns with or
without parentheses.

Main definitions: `WrittenType.spelling`, `WrittenType.tree` and `WrittenType.Proper`.
-/

namespace TypedLua

open Text TypedLua.Parser
open Token (Kind)

/-! ## Structures -/

/-- The structure of a primitive. -/
def TypeTree.ofPrimitive (p : Primitive) : TypeTree := .node (.primitive p) []

/-- Whether the structure is that of `void`. -/
def TypeTree.isVoid : TypeTree → Bool
  | node (.primitive .void) _ => true
  | _ => false

/-- What is left of structures that are returned: a lone `void` is nothing. -/
def TypeTree.stripped : List TypeTree → List TypeTree
  | [t] => if t.isVoid then [] else [t]
  | ts => ts

/-! ## Annotations -/

namespace WrittenType

/-- A property as it is written. -/
structure Member (α : Type) where
  name : String
  optional : Bool
  type : α
  /-- Whether a semicolon would separate it from the next. -/
  semicolon : Bool

/-- What a function returns, as it is written. -/
inductive Returns (α : Type) where
  /-- Nothing is said about it. -/
  | untyped
  /-- A type after an arrow. -/
  | type (type : α)
  /-- Types in parentheses after an arrow. -/
  | group (types : List α)

/-- The types that are returned. -/
def Returns.types {α : Type} : Returns α → List α
  | untyped => []
  | type e => [e]
  | group es => es

/-- What stands between a property and the next. -/
def Member.separator {α : Type} (f : Member α) : Kind := if f.semicolon then .semicolon else .comma

theorem Member.separates {α : Type} (f : Member α) : f.separator.Separates := by
  unfold separator
  split
  · exact .inr rfl
  · exact .inl rfl

/-- Where an annotation stands. -/
structure Context where
  names : String → Option TypeTree
  /-- Whether functions may come without a return type. -/
  untyped : Bool

end WrittenType

/-- A type as it is written. -/
inductive WrittenType where
  /-- A name. -/
  | named (name : String)
  /-- The word `nil`. -/
  | nil
  /-- A type with an array suffix. -/
  | array (element : WrittenType)
  /-- An ellipsis before a type. -/
  | vararg (element : WrittenType)
  /-- An ellipsis on its own. -/
  | ellipsis
  /-- Properties in braces, the last perhaps with a separator after it. -/
  | table (members : List (WrittenType.Member WrittenType)) (closed : Bool)
  /-- Arguments in parentheses, and returns. -/
  | function (arguments : List WrittenType) (returns : WrittenType.Returns WrittenType)

namespace WrittenType

/-- Lists of words in parentheses, with commas between them. -/
def groupWords (wss : List (List Word)) : List Word :=
  Kind.leftParen.word :: (commas wss ++ [Kind.rightParen.word])

/-- A property, given the words of its type. -/
def propertyWords {α : Type} (f : Member α) (ws : List Word) : List Word :=
  (.identifier, f.name) ::
    ((if f.optional then [Kind.question.word] else []) ++ Kind.colon.word :: ws)

mutual

/-- The words of an annotation. -/
def spelling : WrittenType → List Word
  | named name => [(.identifier, name)]
  | nil => [Kind.kwNil.word]
  | array element => element.spelling ++ [Kind.leftBracket.word, Kind.rightBracket.word]
  | vararg element => Kind.ellipsis.word :: element.spelling
  | ellipsis => [Kind.ellipsis.word]
  | table members closed =>
    Kind.leftBrace.word :: (separated closed (memberSpellings members) ++ [Kind.rightBrace.word])
  | function arguments returns => groupWords (spellings arguments) ++ returnSpelling returns

/-- The words of annotations. -/
def spellings : List WrittenType → List (List Word)
  | [] => []
  | e :: es => e.spelling :: spellings es

/-- The words of properties, and what separates them. -/
def memberSpellings : List (Member WrittenType) → List (List Word × Kind)
  | [] => []
  | f :: members => (propertyWords f f.type.spelling, f.separator) :: memberSpellings members

/-- The words after the arguments of a function. -/
def returnSpelling : Returns WrittenType → List Word
  | .untyped => []
  | .type e => Kind.arrow.word :: e.spelling
  | .group es => Kind.arrow.word :: groupWords (spellings es)

end

/-- The words of a property. -/
def memberSpelling (f : Member WrittenType) : List Word := propertyWords f f.type.spelling

theorem spellings_eq_map (es : List WrittenType) : spellings es = es.map spelling := by
  induction es with
  | nil => rfl
  | cons e es ih => exact congrArg (e.spelling :: ·) ih

theorem memberSpellings_eq_map (fs : List (Member WrittenType)) :
    memberSpellings fs = fs.map fun f => (memberSpelling f, f.separator) := by
  induction fs with
  | nil => rfl
  | cons f fs ih => exact congrArg ((memberSpelling f, f.separator) :: ·) ih

theorem spelling_table (members : List (Member WrittenType)) (closed : Bool) :
    (table members closed).spelling = Kind.leftBrace.word ::
      (separated closed (members.map fun f => (memberSpelling f, f.separator)) ++
        [Kind.rightBrace.word]) := by
  rw [spelling, memberSpellings_eq_map]

theorem spelling_function (arguments : List WrittenType) (returns : Returns WrittenType) :
    (function arguments returns).spelling =
      groupWords (arguments.map spelling) ++ returnSpelling returns := by
  rw [spelling, spellings_eq_map]

/-- The structure of a function: one that returns a lone `void` returns nothing. -/
def functionTree (arguments returns : List TypeTree) : TypeTree :=
  .node (.function (arguments.map fun _ => default)
    ((TypeTree.stripped returns).map fun _ => default)) (arguments ++ TypeTree.stripped returns)

mutual

/-- The structure that an annotation stands for. -/
def tree (Γ : Context) : WrittenType → TypeTree
  | named name => (Γ.names name).getD .absent
  | nil => .ofPrimitive .nil
  | array element => .node (.array default) [element.tree Γ]
  | vararg element => .node (.vararg default) [element.tree Γ]
  | ellipsis => .node (.vararg default) [.ofPrimitive .any]
  | table members _ =>
    .node (.table (members.map fun f => ⟨f.name, default, f.optional⟩)) (memberTrees Γ members)
  | function arguments returns => functionTree (trees Γ arguments) (returnTrees Γ returns)

/-- The structures that annotations stand for. -/
def trees (Γ : Context) : List WrittenType → List TypeTree
  | [] => []
  | e :: es => e.tree Γ :: trees Γ es

/-- The structures that the types of properties stand for. -/
def memberTrees (Γ : Context) : List (Member WrittenType) → List TypeTree
  | [] => []
  | f :: members => f.type.tree Γ :: memberTrees Γ members

/-- The structures that are returned. -/
def returnTrees (Γ : Context) : Returns WrittenType → List TypeTree
  | .untyped => [.ofPrimitive .any]
  | .type e => [e.tree Γ]
  | .group es => trees Γ es

end

variable {Γ : Context}

theorem trees_eq_map (es : List WrittenType) : trees Γ es = es.map (tree Γ) := by
  induction es with
  | nil => rfl
  | cons e es ih => exact congrArg (e.tree Γ :: ·) ih

theorem memberTrees_eq_map (fs : List (Member WrittenType)) :
    memberTrees Γ fs = fs.map fun f => f.type.tree Γ := by
  induction fs with
  | nil => rfl
  | cons f fs ih => exact congrArg (f.type.tree Γ :: ·) ih

/-! ## Annotations that mean what they say -/

/-- Whether the annotation ends with an array suffix. -/
def isArray : WrittenType → Bool
  | array _ => true
  | _ => false

/-- Whether the annotation is a function with an arrow. -/
def isFunction : WrittenType → Bool
  | function _ .untyped => false
  | function _ _ => true
  | _ => false

/-- Whether the annotation starts with a parenthesis. -/
def startsGroup : WrittenType → Bool
  | function _ _ => true
  | array element => element.startsGroup
  | _ => false

/-- Whether an array suffix would belong to a part. -/
def isBare : WrittenType → Bool
  | vararg _ => true
  | function _ (.type e) => !e.isFunction || e.isBare
  | _ => false

/-- Whether the annotation ends with an ellipsis. -/
def isOpen : WrittenType → Bool
  | ellipsis => true
  | vararg element => element.isOpen
  | function _ (.type e) => e.isOpen
  | _ => false

/-- Variadic types come last. -/
def VarargLast (Γ : Context) (es : List WrittenType) : Prop :=
  ∀ t ∈ (es.map (tree Γ)).dropLast, t.isVararg = false

/-- Returns may be written this way: something is said about them if it must be, and after an arrow
a parenthesis starts the arguments of a function. -/
def Returns.Clear (Γ : Context) : Returns WrittenType → Prop
  | .untyped => Γ.untyped = true
  | .type e => e.startsGroup = true → e.isFunction = true
  | .group _ => True

/-- The annotation means what it says: names stand for something, array suffixes are those of the
whole, and variadic types come last. -/
inductive Proper (Γ : Context) : WrittenType → Prop
  /-- A name stands for something. -/
  | named {name : String} {tree : TypeTree} : Γ.names name = some tree → Proper Γ (.named name)
  /-- The word `nil`. -/
  | nil : Proper Γ .nil
  /-- An array. -/
  | array {element : WrittenType} : Proper Γ element → element.isBare = false →
    Proper Γ (.array element)
  /-- A variadic type. -/
  | vararg {element : WrittenType} : Proper Γ element → Proper Γ (.vararg element)
  /-- A variadic type of anything. -/
  | ellipsis : Proper Γ .ellipsis
  /-- A table. -/
  | table {members : List (Member WrittenType)} {closed : Bool} : (∀ f ∈ members, Proper Γ f.type) →
    Proper Γ (.table members closed)
  /-- A function. -/
  | function {arguments : List WrittenType} {returns : Returns WrittenType} :
    (∀ e ∈ arguments, Proper Γ e) → VarargLast Γ arguments → (∀ e ∈ returns.types, Proper Γ e) →
    VarargLast Γ returns.types → returns.Clear Γ → Proper Γ (.function arguments returns)

/-- A type starts with a word that starts a type. -/
theorem exists_spelling (e : WrittenType) : ∃ w ws, e.spelling = w :: ws ∧
    Grammar.startsType w.1 = true ∧ (w.1 == .leftParen) = e.startsGroup := by
  match e with
  | named _ | nil | vararg _ | ellipsis | table _ _ | function _ _ => exact ⟨_, _, rfl, rfl, rfl⟩
  | array element =>
    obtain ⟨w, ws, hw, hstarts, hparen⟩ := exists_spelling element
    refine ⟨w, ws ++ [Kind.leftBracket.word, Kind.rightBracket.word], ?_, hstarts, hparen⟩
    show element.spelling ++ _ = _
    rw [hw]
    rfl

/-! ## Array suffixes -/

/-- An annotation with a number of array suffixes. -/
def arrays : Nat → WrittenType → WrittenType
  | 0, base => base
  | k + 1, base => arrays k (.array base)

/-- A number of array suffixes. -/
def suffixes : Nat → List Word
  | 0 => []
  | k + 1 => Kind.leftBracket.word :: Kind.rightBracket.word :: suffixes k

/-- A structure below a number of arrays. -/
def arrayTree : Nat → TypeTree → TypeTree
  | 0, t => t
  | k + 1, t => arrayTree k (.node (.array default) [t])

theorem array_arrays (k : Nat) (base : WrittenType) :
    array (arrays k base) = arrays (k + 1) base := by
  induction k generalizing base with
  | zero => rfl
  | succ k ih => exact ih (.array base)

theorem spelling_arrays (k : Nat) (base : WrittenType) :
    (arrays k base).spelling = base.spelling ++ suffixes k := by
  induction k generalizing base with
  | zero => exact (List.append_nil _).symm
  | succ k ih =>
    show (arrays k (.array base)).spelling = _
    rw [ih]
    exact List.append_assoc _ _ _

theorem tree_arrays (k : Nat) (base : WrittenType) :
    (arrays k base).tree Γ = arrayTree k (base.tree Γ) := by
  induction k generalizing base with
  | zero => rfl
  | succ k ih => exact ih (.array base)

/-- Every type is a base with array suffixes. -/
theorem exists_arrays : ∀ e : WrittenType, ∃ k base, e = arrays k base ∧ base.isArray = false
  | array element => by
    obtain ⟨k, base, hbase, harray⟩ := exists_arrays element
    refine ⟨k + 1, base, ?_, harray⟩
    rw [hbase]
    exact array_arrays k base
  | named _ | nil | vararg _ | ellipsis | table _ _ | function _ _ => ⟨0, _, rfl, rfl⟩

theorem Proper.of_arrays (k : Nat) {base : WrittenType} (h : Proper Γ (arrays k base)) :
    Proper Γ base ∧ (k ≠ 0 → base.isBare = false) := by
  induction k generalizing base with
  | zero => exact ⟨h, fun hk => absurd rfl hk⟩
  | succ k ih =>
    cases (ih h).1 with
    | array hbase hbare => exact ⟨hbase, fun _ => hbare⟩

end WrittenType

end TypedLua
