import TypedLua.Proofs.Grammar.Renamed.Statements
import TypedLua.Proofs.Session.Runs
import TypedLua.Proofs.Session.Varargs

/-!
# Session.Hygiene

Renaming the parameters of an interface.  If they get names that do not occur in the text, the text
can still be read, and every variable has a type of the same structure, up to the renaming.  This is
so unless a parameter is captured: it is known by its name alone, and in an interface that mentions
another one without type arguments, an argument for a parameter takes the place of the parameter of
the other too, if both have one name.

Main statement: `parse_renamed_parameters`.
-/

namespace TypedLua

open Token (Kind Matches)

/-! ## New names -/

namespace Token

/-- The parameters get distinct names that do not occur in the text, or keep their own. -/
structure FreshNames (ρ : String → String) (names : List String)
    (cs : List (Option (Kind × String))) : Prop where
  kept (name : String) : name ∉ names → ρ name = name
  distinct (name other : String) : name ∈ names → other ∈ names → ρ name = ρ other → name = other
  fresh (name : String) : ρ name ≠ name → some (.identifier, ρ name) ∉ cs

/-- What a name was before the parameters were renamed. -/
def restore (ρ : String → String) (names : List String) (name : String) : String :=
  (names.find? fun parameter => ρ parameter == name).getD name

namespace FreshNames

variable {ρ : String → String} {names : List String} {cs : List (Option (Kind × String))}

theorem eq_of_occurs (h : FreshNames ρ names cs) {name other : String}
    (hname : some (.identifier, name) ∈ cs) (heq : ρ other = name) : other = name := by
  by_contra hne
  refine h.fresh other (by rw [heq]; exact fun h => hne h.symm) ?_
  rwa [heq]

theorem restore_self (h : FreshNames ρ names cs) {name : String}
    (hname : some (.identifier, name) ∈ cs) : restore ρ names name = name := by
  unfold restore
  cases hfind : names.find? fun parameter => ρ parameter == name with
  | none => rfl
  | some other =>
    have hother := List.find?_some hfind
    exact h.eq_of_occurs hname (beq_iff_eq.1 hother)

/-- What is renamed can be restored. -/
theorem restore_rename (h : FreshNames ρ names cs) {name : String}
    (hname : some (.identifier, name) ∈ cs) : restore ρ names (ρ name) = name := by
  by_cases hmem : name ∈ names
  · unfold restore
    cases hfind : names.find? fun parameter => ρ parameter == ρ name with
    | none =>
      have hnone := List.find?_eq_none.1 hfind name hmem
      exact absurd (beq_self_eq_true _) hnone
    | some other =>
      have hother := List.find?_some hfind
      exact h.distinct other name (List.mem_of_find?_eq_some hfind) hmem (beq_iff_eq.1 hother)
  · rw [h.kept name hmem]
    exact h.restore_self hname

/-- How the names of a text are renamed, and how that is undone. -/
def respelling (h : FreshNames ρ names cs) : Respelling where
  occurs name := some (.identifier, name) ∈ cs
  rename := ρ
  back := restore ρ names
  back_rename := h.restore_rename
  back_self := h.restore_self

end FreshNames

/-- A text with tokens of the same kinds has a stream too. -/
theorem Stream.exists_ofSource {source source' : String} {s : Stream}
    (h : ofSource source = .ok s)
    (hkinds : (Token.contents source').map kindOf = (Token.contents source).map kindOf) :
    ∃ s', ofSource source' = .ok s' := by
  rw [← contents_ofSource h] at hkinds
  unfold Token.contents at hkinds
  unfold ofSource next
  cases hreadings : readings source' with
  | nil => exact absurd hreadings (readings_ne_nil source')
  | cons r rest =>
    rw [hreadings] at hkinds
    cases r with
    | ok token => exact ⟨_, rfl⟩
    | error f => cases (List.cons.inj hkinds).1

end Token

/-! ## Reading a text with renamed parameters -/

/-- Two arenas of primitives. -/
def Sides.primitives : Sides where
  left := .primitives
  right := .primitives
  leftGrounded := TypeArena.primitives_grounded
  rightGrounded := TypeArena.primitives_grounded

/-- A text and its renamed copy start in states that correspond. -/
theorem Respelling.State.start {ρ : String → String} {names : List String} {text text' : String}
    {stream stream' : Token.Stream} {s : Session}
    (hρ : Token.FreshNames ρ names (Token.contents text))
    (hmatches : Matches ρ none (Token.contents text) (Token.contents text'))
    (himports : some .kwImport ∉ (Token.contents text).map Token.kindOf)
    (hstream : Token.Stream.ofSource text = .ok stream)
    (hstream' : Token.Stream.ofSource text' = .ok stream')
    (htypes : s.types = .primitives) (hvars : s.vars.vars = []) :
    hρ.respelling.State none hρ.respelling.plain .primitives
      { stream, session := s } { stream := stream', session := s } := by
  have hcontents := Token.Stream.contents_ofSource hstream
  have hcontents' := Token.Stream.contents_ofSource hstream'
  refine ⟨?_, ?_, fun name hname => ?_, ?_, rfl, rfl, htypes, htypes, ?_, .nil⟩
  · show Matches ρ none stream.contents stream'.contents
    rwa [hcontents, hcontents']
  · show ∃ word, stream.contents.getLast? = some (some (.eof, word))
    rw [hcontents]
    exact Token.getLast?_contents text
  · show some (.identifier, name) ∈ Token.contents text
    rwa [← hcontents]
  · show ∀ word, some (.kwImport, word) ∉ stream.contents
    rw [hcontents]
    exact fun word hword => himports (List.mem_map_of_mem hword)
  · show hρ.respelling.declared.list.rel .primitives s.vars.vars s.vars.vars
    rw [hvars]
    exact .nil

namespace Session

/-- **Parameters of interfaces are hygienic.**  If the parameters of one interface get distinct names
that do not occur in a text without imports that is read, the renamed text is read too.  It declares
the same variables, with types of the same structure once the parameters have their old names back,
unless an interface that was given arguments mentions in its properties a parameter that is not its
own, and that had the name of one of its own before. -/
theorem parse_renamed_parameters {files : FileTree} {path : Path} {text text' : String}
    {config : Config} {output : Option String} {m : Module} {s : Session} {ρ : String → String}
    {before rest : List (Option (Kind × String))} {word : String}
    (hparse : parse files path text { config, output } = (some m, s))
    (himports : some .kwImport ∉ (Token.contents text).map Token.kindOf)
    (htext : Token.contents text = before ++ some (.kwInterface, word) :: rest)
    (hρ : Token.FreshNames ρ (Token.parameters rest) (Token.contents text))
    (htext' : Token.contents text' =
      before ++ some (.kwInterface, word) :: Token.rename ρ (some .start) rest) :
    ∃ m' s', parse files path text' { config, output } = (some m', s') ∧
      List.Forall₂ (fun v v' => v.name = v'.name ∧
        (s'.types.Separates (Token.restore ρ (Token.parameters rest)) → s.types.unfold v.type =
          (s'.types.unfold v'.type).relabel (Token.restore ρ (Token.parameters rest))))
        s.vars.vars s'.vars.vars := by
  obtain ⟨u, hread, rfl⟩ := parseWith_eq_some hparse
  obtain ⟨stream, u, hstream, hrun, rfl⟩ := readModule_eq_ok hread
  have hmatches : Matches ρ none (Token.contents text) (Token.contents text') := by
    refine .inr ⟨before, word, rest, htext, htext', fun name hname => ?_⟩
    by_contra hmem
    exact hname (hρ.kept name hmem)
  obtain ⟨stream', hstream'⟩ := Token.Stream.exists_ofSource hstream hmatches.kinds_eq
  have hstart := Respelling.State.start (s := marked files path { config, output }) hρ hmatches
    himports hstream hstream' rfl rfl
  have henv : (SourceFile.ofPath path text).Agree .names (.ofPath path text') :=
    ⟨rfl, rfl, rfl, .intro⟩
  obtain ⟨v, m', u', hrun', hleft, hright, hvars⟩ := Respelling.module_follows hstart
    ⟨files, .ofPath path text', compile files⟩ henv hrun
  refine ⟨m', u'.session.unmarked, ?_, ?_⟩
  · exact parseWith_of_read (readModule_of_run hstream' hrun')
  · refine hvars.imp fun x x' hx => ⟨hx.name, ?_⟩
    show u'.session.types.Separates _ →
      u.session.types.unfold x.type = (u'.session.types.unfold x'.type).relabel _
    rw [hleft, hright]
    exact hx.type.tree

/-- `T` is called `U` instead. -/
def renameT (name : String) : String := if name = "T" then "U" else name

theorem freshNames_renameT {names : List String} {cs : List (Option (Kind × String))}
    (hnames : names = ["T"]) (hU : some (.identifier, "U") ∉ cs) :
    Token.FreshNames renameT names cs := by
  subst hnames
  refine ⟨fun name hname => ?_, fun name other hname hother _ => ?_, fun name hname => ?_⟩
  · exact if_neg fun heq => hname (by simp [heq])
  · rw [List.mem_singleton.1 hname, List.mem_singleton.1 hother]
  · by_cases heq : name = "T"
    · rw [renameT, if_pos heq]
      exact hU
    · exact absurd (if_neg heq) hname

/-- The tokens of an interface of boxes, with the parameter `T`. -/
def boxTokens : List (Option (Kind × String)) :=
  List.map some [(.kwInterface, "interface"), (.identifier, "Box"), (.less, "<"),
    (.identifier, "T"), (.greater, ">"), (.leftBrace, "\x7b"), (.identifier, "value"), (.colon, ":"),
    (.identifier, "T"), (.rightBrace, "\x7d")]

/-- The tokens of an interface of pairs, but for the first and the type of their property, and of a
variable that is a pair. -/
def pairTokens (type : List (Kind × String)) : List (Option (Kind × String)) :=
  List.map some ([(.identifier, "Pair"), (.less, "<"), (.identifier, "T"), (.greater, ">"),
    (.leftBrace, "\x7b"), (.identifier, "rest"), (.colon, ":")] ++ type ++
    [(.rightBrace, "\x7d"), (.kwLocal, "local"), (.identifier, "p"), (.colon, ":"),
    (.identifier, "Pair"), (.less, "<"), (.identifier, "number"), (.greater, ">"), (.eof, "")])

set_option maxRecDepth 4000 in
/-- Two interfaces with a parameter `T`, of which the second is given another name for it. -/
theorem parse_renamed_parameters_pair :
    let text := "interface Box<T> \x7b value: T \x7d
interface Pair<T> \x7b rest: Box<T>[] \x7d
local p: Pair<number>"
    let text' := "interface Box<T> \x7b value: T \x7d
interface Pair<U> \x7b rest: Box<U>[] \x7d
local p: Pair<number>"
    ∃ m s m' s', parse ⟨"/", []⟩ ⟨"main.lua"⟩ text {} = (some m, s) ∧
      parse ⟨"/", []⟩ ⟨"main.lua"⟩ text' {} = (some m', s') ∧
      s'.types.Separates (Token.restore renameT ["T"]) ∧
      List.Forall₂ (fun v v' => v.name = v'.name ∧ s.types.unfold v.type =
        (s'.types.unfold v'.type).relabel (Token.restore renameT ["T"]))
        s.vars.vars s'.vars.vars := by
  intro text text'
  let rest := pairTokens [(.identifier, "Box"), (.less, "<"), (.identifier, "T"), (.greater, ">"),
    (.leftBracket, "["), (.rightBracket, "]")]
  obtain ⟨m, s, hparse, -⟩ : ∃ m s, parse ⟨"/", []⟩ ⟨"main.lua"⟩ text {} = (some m, s) ∧
      s.vars.vars.map Variable.name = ["p"] :=
    exists_of_found (by rw [parse_ofList]; decide +kernel)
  obtain ⟨m₁, s₁, hparse₁, htypes⟩ : ∃ m s, parse ⟨"/", []⟩ ⟨"main.lua"⟩ text' {} = (some m, s) ∧
      s.types = ⟨TypeArena.primitives.shapes ++ [.generic "T",
        .interface "Box" [⟨7⟩] [⟨"value", ⟨7⟩, false⟩], .generic "U",
        .interface "Box" [⟨9⟩] [⟨"value", ⟨9⟩, false⟩], .array ⟨10⟩,
        .interface "Pair" [⟨9⟩] [⟨"rest", ⟨11⟩, false⟩],
        .interface "Box" [⟨1⟩] [⟨"value", ⟨1⟩, false⟩], .array ⟨13⟩,
        .interface "Pair" [⟨1⟩] [⟨"rest", ⟨14⟩, false⟩]]⟩ :=
    exists_of_found (by rw [parse_ofList]; decide +kernel)
  have htext : Token.contents text = boxTokens ++ some (.kwInterface, "interface") :: rest := by
    rw [Token.contents, Token.readings_ofList]
    decide +kernel
  have htext' : Token.contents text' =
      boxTokens ++ some (.kwInterface, "interface") :: Token.rename renameT (some .start) rest := by
    rw [Token.contents, Token.readings_ofList]
    decide +kernel
  have hfresh : Token.FreshNames renameT (Token.parameters rest) (Token.contents text) := by
    rw [htext]
    exact freshNames_renameT (by decide) (by decide)
  have himports : some .kwImport ∉ (Token.contents text).map Token.kindOf := by
    rw [htext]
    decide
  have hnames : Token.parameters rest = ["T"] := by decide
  obtain ⟨m', s', hparse', hsame⟩ := parse_renamed_parameters hparse himports htext hfresh htext'
  rw [hnames] at hsame
  have hsep : s'.types.Separates (Token.restore renameT ["T"]) := by
    have hsession : s₁ = s' := congrArg Prod.snd (hparse₁.symm.trans hparse')
    rw [← hsession, htypes]
    decide +kernel
  exact ⟨m, s, m', s', hparse, hparse', hsep, hsame.imp fun v v' hv => ⟨hv.1, hv.2 hsep⟩⟩

/-- The parameters in the types of the variables of a session. -/
def variableParameters (s : Session) : List (String × List String) :=
  s.vars.vars.map fun v => (v.name, (s.types.unfold v.type).parameters)

set_option maxRecDepth 4000 in
/-- An interface that mentions another one without type arguments: where both have a parameter `T`,
an argument for the one takes the place of the other too, and where its own is called `U`, it does
not. -/
theorem parameter_captured :
    let text := "interface Box<T> \x7b value: T \x7d
interface Pair<T> \x7b rest: Box \x7d
local p: Pair<number>"
    let text' := "interface Box<T> \x7b value: T \x7d
interface Pair<U> \x7b rest: Box \x7d
local p: Pair<number>"
    let rest := pairTokens [(.identifier, "Box")]
    Token.contents text = boxTokens ++ some (.kwInterface, "interface") :: rest ∧
      Token.contents text' =
        boxTokens ++ some (.kwInterface, "interface") :: Token.rename renameT (some .start) rest ∧
      ∃ m s m' s', parse ⟨"/", []⟩ ⟨"main.lua"⟩ text {} = (some m, s) ∧
        parse ⟨"/", []⟩ ⟨"main.lua"⟩ text' {} = (some m', s') ∧
        s.variableParameters = [("p", [])] ∧ s'.variableParameters = [("p", ["T", "T"])] := by
  intro text text' rest
  refine ⟨by rw [Token.contents, Token.readings_ofList]; decide +kernel,
    by rw [Token.contents, Token.readings_ofList]; decide +kernel, ?_⟩
  obtain ⟨m, s, hparse, hvars⟩ : ∃ m s, parse ⟨"/", []⟩ ⟨"main.lua"⟩ text {} = (some m, s) ∧
      s.variableParameters = [("p", [])] :=
    exists_of_found (by rw [parse_ofList]; decide +kernel)
  obtain ⟨m', s', hparse', hvars'⟩ : ∃ m s, parse ⟨"/", []⟩ ⟨"main.lua"⟩ text' {} = (some m, s) ∧
      s.variableParameters = [("p", ["T", "T"])] :=
    exists_of_found (by rw [parse_ofList]; decide +kernel)
  exact ⟨m, s, m', s', hparse, hparse', hvars, hvars'⟩

end Session

end TypedLua
