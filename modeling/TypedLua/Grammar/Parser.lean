import TypedLua.Files.Tree
import TypedLua.Session.Basic
import TypedLua.Token.Stream
import TypedLua.Tree.Module

/-!
# TypedLua.Grammar.Parser

The steps that reading a module is made of.  A parser takes tokens from a stream and works on the
open scopes and the session; when it fails, it leaves the state as the failure found it.  Nesting is
counted, and constructs nested beyond `nestingLimit` are refused.
-/

namespace TypedLua

open Text
open Token (Kind Stream)

/-! ## §1. Parsers -/

/-- What a parser works on. -/
structure ParserState where
  /-- The tokens. -/
  stream : Stream
  /-- The open scopes. -/
  scopes : ScopeStack := {}
  /-- How many constructs are open. -/
  depth : Nat := 0
  /-- Where the last token that was taken ends. -/
  lastEnd : Position := {}
  /-- What is shared with other modules. -/
  session : Session

/-- What a parser may consult. -/
structure ParserEnv where
  /-- The files that imports are read from. -/
  files : FileTree
  /-- The file that is being read. -/
  file : SourceFile
  /-- Loads the module kept at a path, given its text. -/
  load : Path → String → StateM Session (Option Module)

/-- A step of reading: it gives a value or a fault, and in both cases a new state. -/
def Parser (α : Type) : Type := ParserEnv → ParserState → Except Fault α × ParserState

namespace Parser

variable {α β : Type}

instance : Monad Parser where
  pure a := fun _ s => (.ok a, s)
  bind p f := fun env s =>
    match p env s with
    | (.ok a, s) => f a env s
    | (.error e, s) => (.error e, s)

theorem pure_apply (a : α) (env : ParserEnv) (s : ParserState) :
    (pure a : Parser α) env s = (.ok a, s) := rfl

theorem bind_apply (p : Parser α) (f : α → Parser β) (env : ParserEnv) (s : ParserState) :
    (p >>= f) env s =
      match p env s with
      | (.ok a, s) => f a env s
      | (.error e, s) => (.error e, s) := rfl

/-- A sequence succeeds exactly if both of its steps do. -/
theorem bind_eq_ok {p : Parser α} {f : α → Parser β} {env : ParserEnv} {s t : ParserState} {b : β} :
    (p >>= f) env s = (.ok b, t) ↔ ∃ a u, p env s = (.ok a, u) ∧ f a env u = (.ok b, t) := by
  rw [bind_apply]
  obtain ⟨r, u⟩ := p env s
  cases r with
  | error e => simp
  | ok a =>
    constructor
    · intro h
      exact ⟨a, u, rfl, h⟩
    · rintro ⟨_, _, h, hf⟩
      cases h
      exact hf

instance : LawfulMonad Parser := LawfulMonad.mk' Parser
  (fun p => by
    funext env s
    change (match p env s with
      | (.ok a, s) => (pure (id a) : Parser _) env s
      | (.error e, s) => (.error e, s)) = p env s
    obtain ⟨r, t⟩ := p env s
    cases r <;> rfl)
  (fun _ _ => rfl)
  (fun p f g => by
    funext env s
    simp only [bind_apply]
    obtain ⟨r, t⟩ := p env s
    cases r <;> rfl)

/-- Stop with a fault. -/
def fail (span : Span) (cause : Cause) : Parser α := fun _ s => (.error ⟨span, cause⟩, s)

/-- Stop with a fault that was found elsewhere. -/
def ofExcept : Except Fault α → Parser α
  | .ok a => pure a
  | .error f => fun _ s => (.error f, s)

/-- A value read off the state. -/
def gets (f : ParserState → α) : Parser α := fun _ s => (.ok (f s), s)

/-- A value read off what the parser may consult. -/
def asks (f : ParserEnv → α) : Parser α := fun env s => (.ok (f env), s)

/-- Change the state. -/
def modify (f : ParserState → ParserState) : Parser Unit := fun _ s => (.ok (), f s)

/-- Do `p`, and then restore a part of the state whether or not `p` succeeds. -/
def restoring (p : Parser α) (restore : ParserState → ParserState → ParserState) : Parser α :=
  fun env s =>
    let (r, t) := p env s
    (r, restore s t)

/-! ## §2. Tokens -/

/-- The current token. -/
def current : Parser Token := gets (·.stream.current)

/-- Where the current token stands. -/
def currentSpan : Parser Span := return (← current).span

/-- The kind of the current token. -/
def currentKind : Parser Kind := return (← current).kind

/-- The kind of the token `count` places ahead. -/
def peekKind (count : Nat) : Parser Kind := do
  let token ← ofExcept ((← gets (·.stream)).peek count)
  return token.kind

/-- Whether the current token is of the given kind. -/
def check (k : Kind) : Parser Bool := return (← currentKind) == k

/-- Whether the text ends here. -/
def atEnd : Parser Bool := check .eof

/-- Take the current token. -/
def advance : Parser Unit := fun _ s =>
  let (r, stream) := s.stream.next
  (r, { s with stream, lastEnd := s.stream.current.span.stop })

/-- Take the current token and give it back. -/
def take : Parser Token := do
  let token ← current
  advance
  return token

/-- Take the current token if it is of the given kind; says whether it was. -/
def eat (k : Kind) : Parser Bool := do
  if ← check k then
    advance
    return true
  else return false

/-- Take a token of the given kind. -/
def expect (k : Kind) : Parser Token := do
  if ← check k then take
  else
    let found ← current
    fail found.span (Fault.expected k found).cause

/-- Stop because the current token starts no form of the construct. -/
def unexpected (construct : String) : Parser α := do
  let found ← current
  fail found.span (Fault.unexpected found construct).cause

/-- Take a name. -/
def identifier : Parser (String × Span) := do
  let token ← expect .identifier
  return (token.text, token.span)

/-- From the start of a span to the end of the last token that was taken. -/
def spanFrom (start : Span) : Parser Span := return ⟨start.start, ← gets (·.lastEnd)⟩

/-! ## §3. Nesting -/

end Parser

/-- How many constructs may be open at once. -/
def nestingLimit : Nat := 64

namespace Parser

variable {α : Type}

/-- Stop because constructs are nested too deep. -/
def tooDeep (construct : String) : Parser α := do
  fail (← currentSpan) (.tooDeep nestingLimit construct)

/-- Open a construct. -/
def deepen (construct : String) : Parser Unit := do
  if (← gets (·.depth)) < nestingLimit then modify fun s => { s with depth := s.depth + 1 }
  else tooDeep construct

/-- Do `p` inside a construct. -/
def nested (construct : String) (p : Parser α) : Parser α := do
  deepen construct
  restoring p fun _ t => { t with depth := t.depth - 1 }

/-- Do `p`, and close all constructs that it opened. -/
def chain (p : Parser α) : Parser α := restoring p fun s t => { t with depth := s.depth }

/-- How many constructs may still be opened. -/
def room : Parser Nat := return nestingLimit - (← gets (·.depth))

/-! ## §4. Repetition -/

/-- More repetitions than the tokens that are left allow. -/
def fuel : Parser Nat := return (← gets (·.stream.upcoming.length)) + 1

/-- A comma and an item, as often as there is a comma. -/
def commaTail (item : Parser α) : Nat → Parser (List α)
  | 0 => return []
  | n + 1 => do
    if ← eat .comma then
      let x ← item
      let xs ← commaTail item n
      return x :: xs
    else return []

/-- Items with commas between them, at least one. -/
def commaList (item : Parser α) : Parser (List α) := do
  let x ← item
  let xs ← commaTail item (← fuel)
  return x :: xs

/-- Take a comma or a semicolon, if there is one. -/
def separator : Parser Bool := do
  if ← eat .comma then return true else eat .semicolon

/-- Items with separators between them, up to a closing token; the last may have one too. -/
def entries (item : Parser α) (close : Kind) : Nat → Parser (List α)
  | 0 => return []
  | n + 1 => do
    if ← check close then return []
    else
      let x ← item
      if ← separator then
        let xs ← entries item close n
        return x :: xs
      else return [x]

/-- Items with separators between them, up to and with a closing brace. -/
def braceTail (item : Parser α) : Parser (List α) := do
  let items ← entries item .rightBrace (← fuel)
  let _ ← expect .rightBrace
  return items

/-! ## §5. Scopes and session -/

/-- The id of a type. -/
def internType (shape : Shape) : Parser TypeId := fun _ s =>
  let (id, types) := TypeArena.intern shape s.session.types
  (.ok id, { s with session := { s.session with types } })

/-- A new variable. -/
def allocVariable (v : Variable) : Parser VariableId := fun _ s =>
  let (id, vars) := VariableArena.alloc v s.session.vars
  (.ok id, { s with session := { s.session with vars } })

/-- Bind a type in the innermost scope. -/
def defineType (name : String) (id : TypeId) (span : Span) : Parser Unit := do
  match (← gets (·.scopes)).defineType? name id with
  | some scopes => modify fun s => { s with scopes }
  | none => fail span (.duplicateType name)

/-- Bind a variable in the innermost scope, hiding what the name meant there. -/
def defineVariable (name : String) (id : VariableId) : Parser Unit :=
  modify fun s => { s with scopes := s.scopes.defineVariable name id }

/-- Bind a variable whose name must be new in the innermost scope. -/
def declareVariable (name : String) (id : VariableId) (span : Span) : Parser Unit := do
  match (← gets (·.scopes)).declareVariable? name id with
  | some scopes => modify fun s => { s with scopes }
  | none => fail span (.duplicateVariable name)

/-- Do `p` in a new scope, and give that scope back. -/
def withScope (scope : Scope) (p : Parser α) : Parser (α × Scope) := fun env s =>
  let (r, t) := p env { s with scopes := s.scopes.push scope }
  let (closed, scopes) := t.scopes.pop
  (r.map fun a => (a, closed.getD {}), { t with scopes })

end Parser

end TypedLua
