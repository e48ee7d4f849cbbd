import TypedLua.Token.Basic
import TypedLua.Token.Lexeme

/-!
# TypedLua.Fault

What can be wrong with a module.  A fault is a cause at a place; the causes carry what their wording
needs, and `Cause.message` is the only place where they are worded.
-/

namespace TypedLua

open Text
open Token (Kind LexicalCause)

/-! ## §1. Causes -/

/-- Why a module is refused.  Types are given as they are displayed. -/
inductive Cause where
  /-- The text cannot be read as tokens. -/
  | lexical (cause : LexicalCause)
  /-- A numeral that denotes no number. -/
  | malformedNumber (text : String)
  /-- Another kind of token is needed here. -/
  | expected (wanted found : Kind) (text : String)
  /-- No form of the construct starts with this token. -/
  | unexpected (found : Kind) (text : String) (construct : String)
  /-- Constructs are nested beyond the limit. -/
  | tooDeep (limit : Nat) (construct : String)
  /-- A variadic type before the end of a list. -/
  | misplacedVararg
  /-- A function without a return type. -/
  | missingReturnType
  /-- A type name that no open scope binds. -/
  | unknownType (name : String)
  /-- Type arguments for a type that has no parameters. -/
  | noTypeParameters (name : String)
  /-- The wrong number of type arguments. -/
  | typeArgumentCount (name : String) (wanted got : Nat)
  /-- A second type of one name in a scope. -/
  | duplicateType (name : String)
  /-- A second declaration of one name in a scope. -/
  | duplicateVariable (name : String)
  /-- A name that is neither a variable nor a type. -/
  | unknownIdentifier (name : String)
  /-- An expression that is no call stands as a statement. -/
  | notACall
  /-- An export inside a nested block. -/
  | nestedExport
  /-- An import that does not name a local file. -/
  | badModuleName
  /-- An import of a module that is being loaded. -/
  | circularImport (path : String)
  /-- An import of a file that cannot be read. -/
  | unreadableImport (path : String)
  /-- An import of a module that is itself refused. -/
  | failedImport (modulePath : String)
  /-- An imported name that the module does not export. -/
  | missingExport (name file : String)
  /-- More values than variables. -/
  | tooManyValues
  /-- Fewer values than variables. -/
  | tooFewValues
  /-- A value that its variable does not take. -/
  | valueMismatch (declared value : String)
  /-- A name that was never resolved. -/
  | unresolved (name : String)
  /-- A call of something that is no function. -/
  | notCallable (type : String)
  /-- The wrong number of arguments. -/
  | argumentCount (wanted got : Nat)
  /-- A value where another type is needed. -/
  | notAssignable (value target : String)
  /-- A property that the type lacks. -/
  | missingProperty (name type : String)
  /-- Indexing into something that has no elements. -/
  | notIndexable (type : String)
  /-- Named and bare entries in one constructor. -/
  | mixedConstructor
  /-- Bare entries where no array is wanted. -/
  | notAnArray (type : String)
deriving DecidableEq, Repr

/-- The wording of a cause. -/
def Cause.message : Cause → String
  | lexical cause => cause.message
  | malformedNumber text => s!"unable to convert '{text}' to a number"
  | expected wanted found text => s!"expected {wanted.display}, got {found.describe text}"
  | unexpected found text construct =>
    s!"unexpected {found.describe text} when parsing {construct}"
  | tooDeep limit construct => s!"maximum nesting depth ({limit}) exceeded in {construct}"
  | misplacedVararg => "vararg must be the last type in a type list"
  | missingReturnType => "missing return type annotation for function"
  | unknownType name => s!"the type '{name}' does not exist in the current context"
  | noTypeParameters name => s!"the type '{name}' does not take type arguments"
  | typeArgumentCount name wanted got =>
    s!"interface '{name}' expects {wanted} type arguments, got {got}"
  | duplicateType name => s!"the type '{name}' is already defined in this scope"
  | duplicateVariable name => s!"'{name}' is already declared in this scope"
  | unknownIdentifier name => s!"unknown identifier '{name}'"
  | notACall => "expected function call"
  | nestedExport => "exports are only allowed in the lowest scope level of the module"
  | badModuleName =>
    "There was an issue parsing the module name. Use './' for local files."
  | circularImport path => s!"circular import of '{path}'"
  | unreadableImport path => s!"unable to open file '{path}'"
  | failedImport modulePath => s!"failed to load module '{modulePath}'"
  | missingExport name file => s!"unable to find export of '{name}' in {file}"
  | tooManyValues => "too many values in local assignment"
  | tooFewValues => "too few values in local assignment"
  | valueMismatch declared value =>
    s!"unable to assign variable of type '{declared}' a value of type '{value}'"
  | unresolved name => s!"unresolved identifier '{name}'"
  | notCallable type => s!"cannot call a value of type '{type}'"
  | argumentCount wanted got => s!"expected {wanted} arguments, got {got}"
  | notAssignable value target => s!"type '{value}' is not assignable to type '{target}'"
  | missingProperty name type => s!"property '{name}' does not exist on type '{type}'"
  | notIndexable type => s!"cannot index a value of type '{type}'"
  | mixedConstructor => "cannot mix table and array constructors"
  | notAnArray type => s!"cannot use array constructor on non-array type '{type}'"

/-! ## §2. Faults and diagnostics -/

/-- A cause at a place of the source text. -/
structure Fault where
  /-- Where the module is at fault. -/
  span : Span
  /-- Why. -/
  cause : Cause
deriving DecidableEq, Repr

/-- What a reader is told: a message about a place of the source text. -/
structure Diagnostic where
  /-- The place. -/
  span : Span
  /-- The message. -/
  message : String
deriving DecidableEq, Repr, Inhabited

namespace Fault

/-- The diagnostic of a fault. -/
def diagnostic (f : Fault) : Diagnostic := ⟨f.span, f.cause.message⟩

/-- Another kind of token was wanted where `found` stands. -/
def expected (wanted : Kind) (found : Token) : Fault :=
  ⟨found.span, .expected wanted found.kind found.text⟩

/-- The token `found` starts no form of the construct. -/
def unexpected (found : Token) (construct : String) : Fault :=
  ⟨found.span, .unexpected found.kind found.text construct⟩

end Fault

end TypedLua
