import TypedLua.Proofs.Session.Calls
import TypedLua.Proofs.Token.Words

/-!
# Session.Runs

What the calls of a session come to.  Reading a module runs the grammar from the start of its text;
compiling it marks its file while it is read, takes the mark away, and checks what was read.

Main statements: `readModule_eq_ok`, `readModule_eq_error` and `compileWith_eq_some_iff`.
-/

namespace TypedLua.Session

open Text

variable {files : FileTree} {load : Loader} {file : SourceFile} {path : Path} {text : String}
  {s t : Session} {m : Module}

/-- The session in which the module kept at a path is read: its file is marked. -/
def marked (files : FileTree) (path : Path) (s : Session) : Session :=
  { s with loading := files.key path :: s.loading }

/-- The session once a module was read: the mark of its file is taken away. -/
def unmarked (s : Session) : Session := { s with loading := s.loading.tail }

/-- Reading a module starts its stream and reads the grammar. -/
theorem readModule_cases (files : FileTree) (load : Loader) (file : SourceFile) (s : Session) :
    (∃ f, Token.Stream.ofSource file.text = .error f ∧
      readModule files load file s = (.error f, s)) ∨
    ∃ stream, Token.Stream.ofSource file.text = .ok stream ∧
      ∀ r u, Grammar.module ⟨files, file, load⟩ { stream, session := s } = (r, u) →
        readModule files load file s = (r, u.session) := by
  unfold readModule startParser
  cases hsource : Token.Stream.ofSource file.text with
  | error f => exact .inl ⟨f, rfl, rfl⟩
  | ok stream =>
    refine .inr ⟨stream, rfl, fun r u hrun => ?_⟩
    show ((Grammar.module _ _).1, (Grammar.module _ _).2.session) = _
    rw [hrun]

/-- How a module is read. -/
theorem readModule_eq_ok (h : readModule files load file s = (.ok m, t)) :
    ∃ stream u, Token.Stream.ofSource file.text = .ok stream ∧
      Grammar.module ⟨files, file, load⟩ { stream, session := s } = (.ok m, u) ∧
      t = u.session := by
  rcases readModule_cases files load file s with ⟨f, -, hrun⟩ | ⟨stream, hstream, hrun⟩
  · rw [hrun] at h
    cases h
  · cases hmodule : Grammar.module ⟨files, file, load⟩ { stream, session := s } with
    | mk r u =>
      rw [hrun r u hmodule] at h
      cases h
      exact ⟨stream, u, hstream, hmodule, rfl⟩

theorem readModule_of_run {stream : Token.Stream} {r : Except Fault Module} {u : ParserState}
    (hstream : Token.Stream.ofSource file.text = .ok stream)
    (hrun : Grammar.module ⟨files, file, load⟩ { stream, session := s } = (r, u)) :
    readModule files load file s = (r, u.session) := by
  rcases readModule_cases files load file s with ⟨f, herror, -⟩ | ⟨stream', hstream', hread⟩
  · rw [hstream] at herror
    cases herror
  · rw [hstream] at hstream'
    cases hstream'
    exact hread r u hrun

/-- How a module is refused. -/
theorem readModule_eq_error {f : Fault} (h : readModule files load file s = (.error f, t))
    (hlexical : ∀ cause, f.cause ≠ .lexical cause) :
    ∃ stream u, Token.Stream.ofSource file.text = .ok stream ∧
      Grammar.module ⟨files, file, load⟩ { stream, session := s } = (.error f, u) := by
  rcases readModule_cases files load file s with ⟨g, hsource, hrun⟩ | ⟨stream, hstream, hrun⟩
  · -- the first token is a lexical fault
    rw [hrun] at h
    cases h
    obtain ⟨cause, hcause⟩ := Token.cause_of_mem_readings (Token.Stream.mem_of_ofSource hsource)
    exact absurd hcause (hlexical cause)
  · cases hmodule : Grammar.module ⟨files, file, load⟩ { stream, session := s } with
    | mk r u =>
      rw [hrun r u hmodule] at h
      cases h
      exact ⟨stream, u, hstream, hmodule⟩

theorem parseWith_apply : parseWith files load path text s =
    conclude (.ofPath path text)
      (readModule files load (.ofPath path text) (s.marked files path)).1
      (readModule files load (.ofPath path text) (s.marked files path)).2.unmarked := rfl

theorem parseWith_eq_some (h : parseWith files load path text s = (some m, t)) :
    ∃ u, readModule files load (.ofPath path text) (s.marked files path) = (.ok m, u) ∧
      t = u.unmarked := by
  rw [parseWith_apply] at h
  cases hread : readModule files load (.ofPath path text) (s.marked files path) with
  | mk found u =>
    rw [hread] at h
    cases found with
    | error f => cases h
    | ok m' =>
      cases h
      exact ⟨u, rfl, rfl⟩

theorem parseWith_of_read
    (h : readModule files load (.ofPath path text) (s.marked files path) = (.ok m, t)) :
    parseWith files load path text s = (some m, t.unmarked) := by
  rw [parseWith_apply, h]
  rfl

theorem parseWith_of_fault {f : Fault}
    (h : readModule files load (.ofPath path text) (s.marked files path) = (.error f, t)) :
    parseWith files load path text s =
      (none, t.unmarked.report (.ofPath path text) f.diagnostic) := by
  rw [parseWith_apply, h]
  rfl

/-- What is done with a module that was read: it is checked. -/
def checkRead : Option Module → StateM Session (Option Module)
  | none => return none
  | some m => do
    let (valid, m) ← validate m
    return if valid then some m else none

theorem compileWith_apply : compileWith files load path text s =
    checkRead (parseWith files load path text s).1 (parseWith files load path text s).2 := by
  unfold compileWith checkRead
  show (match (parseWith files load path text s).1 with
    | none => _
    | some m => _ : StateM Session (Option Module)) (parseWith files load path text s).2 = _
  cases (parseWith files load path text s).1 <;> rfl

/-- A module compiles if it is read and checked. -/
theorem compileWith_eq_some_iff : compileWith files load path text s = (some m, t) ↔
    ∃ m' u types, parseWith files load path text s = (some m', u) ∧
      m'.check u.config u.vars u.types = ((m, .ok ()), types) ∧ t = { u with types } := by
  rw [compileWith_apply]
  obtain ⟨found, u⟩ := parseWith files load path text s
  cases found with
  | none => exact ⟨nofun, fun ⟨_, _, _, hparse, _⟩ => nomatch hparse⟩
  | some m' =>
    show (if (validate m' u).1.1 then some (validate m' u).1.2 else none, (validate m' u).2) =
      (some m, t) ↔ _
    rw [validate_apply]
    dsimp only
    cases hcheck : m'.check u.config u.vars u.types with
    | mk checked types =>
      obtain ⟨m'', found⟩ := checked
      constructor
      · intro h
        cases found with
        | error f => cases h
        | ok _ =>
          cases h
          exact ⟨m', u, types, rfl, hcheck, rfl⟩
      · rintro ⟨m₁, u₁, types₁, hparse, hcheck₁, rfl⟩
        cases hparse
        rw [hcheck] at hcheck₁
        cases hcheck₁
        rfl

theorem compileWith_eq_some (h : compileWith files load path text s = (some m, t)) :
    ∃ m' u, parseWith files load path text s = (some m', u) ∧
      m = (m'.check u.config u.vars u.types).1.1 ∧
      t = { u with types := (m'.check u.config u.vars u.types).2 } := by
  obtain ⟨m', u, types, hparse, hcheck, rfl⟩ := compileWith_eq_some_iff.1 h
  refine ⟨m', u, hparse, ?_⟩
  rw [hcheck]
  exact ⟨rfl, rfl⟩

/-! ## Texts given by their characters -/

/-- Read a module from the characters of its text. -/
def readChars (files : FileTree) (file : SourceFile) (cs : List Char) :
    StateM Session (Except Fault Module) := fun s =>
  match (Token.Stream.mk (.eof .origin) .origin (Token.readingsFrom cs.length .origin cs)).next with
  | (.ok (), stream) =>
    let (found, state) := Grammar.module ⟨files, file, compile files⟩ { stream, session := s }
    (found, state.session)
  | (.error f, _) => (.error f, s)

theorem readModule_ofList {cs : List Char} (h : file.text = String.ofList cs) :
    readModule files (compile files) file s = readChars files file cs s := by
  rw [readModule, startParser, Token.Stream.ofSource, h, Token.readings_ofList, readChars]
  rcases (Token.Stream.mk _ _ (Token.readingsFrom _ _ cs)).next with ⟨_ | _, stream⟩ <;> rfl

/-- Read the module kept at a path from the characters of its text. -/
def parseChars (files : FileTree) (path : Path) (cs : List Char) :
    StateM Session (Option Module) := fun s =>
  let file := SourceFile.ofPath path (String.ofList cs)
  let (found, t) := readChars files file cs (s.marked files path)
  conclude file found t.unmarked

/-- A text that is given by its characters need not be decoded to be read. -/
theorem parse_ofList (cs : List Char) :
    parse files path (String.ofList cs) s = parseChars files path cs s := by
  rw [parse, parseWith_apply, readModule_ofList rfl]
  rfl

theorem parse_toList : parse files path text s = parseChars files path text.toList s := by
  rw [← parse_ofList, String.ofList_toList]

/-! ## Runs on given texts -/

/-- What a module and its session are like can be found out by running, if it can be decided. -/
theorem exists_of_found {found : Option Module × Session} {P : Module → Session → Prop}
    [∀ m s, Decidable (P m s)] (h : found.1.any (fun m => decide (P m found.2)) = true) :
    ∃ m s, found = (some m, s) ∧ P m s := by
  obtain ⟨m, hm, hP⟩ := (Option.any_eq_true _ _).1 h
  exact ⟨m, found.2, Prod.ext hm rfl, of_decide_eq_true hP⟩

theorem exists_of_ok {α : Type} {found : Except Fault α} {P : α → Prop} [DecidablePred P]
    (h : found.toOption.any (fun x => decide (P x)) = true) : ∃ x, found = .ok x ∧ P x := by
  cases found with
  | error f => cases h
  | ok x => exact ⟨x, rfl, of_decide_eq_true h⟩

theorem exists_of_fault {found : Except Fault Module × Session} {cause : Cause}
    (h : (match found.1 with | .error f => some f.cause | .ok _ => none) = some cause) :
    ∃ f t, found = (.error f, t) ∧ f.cause = cause := by
  obtain ⟨r, t⟩ := found
  cases r with
  | ok m => cases h
  | error f => exact ⟨f, t, rfl, Option.some.inj h⟩

end TypedLua.Session
