import TypedLua.Proofs.Grammar.Placing
import TypedLua.Proofs.Session.Imports
import TypedLua.Proofs.Session.Spans
import TypedLua.Proofs.Typing.Places

/-!
# Session.Reports

What compiling a module reports.  Nothing is reported for a module that is compiled.  If a module is
refused, then a chain of imports leads from it to a module that has a fault of its own; this fault
is reported first, and then, from the inside out, one for each module of the chain: that the import
which leads on failed.  All of them lie at spans of the texts that they are about.

Main statements: `compile_reports_chain` and `compile_reports_located`.
-/

namespace TypedLua

open Text Session Relation TypedLua.Parser

variable {files : FileTree} {root inner v w : Visit}
variable {token : Token} {path : Path} {m : Module} {t s : Session} {f : Fault} {text : String}

/-! ## Imports in texts -/

/-- The token is the string after a word `from` of the text. -/
def Token.FollowsFrom (text : String) (token : Token) : Prop :=
  ∃ word : Token, word.kind = .kwFrom ∧ token.kind = .string ∧ [word, token] <:+: Token.words text

theorem Grammar.ImportsAt.follows_from {env : ParserEnv} {s t : ParserState}
    {names : List (String × Span)} (h : ImportsAt env s names token path t) :
    ∃ word : Token, word.kind = .kwFrom ∧
      token.kind = .string ∧ [word, token] <:+: s.stream.words := by
  obtain ⟨hrun, -⟩ := h
  obtain ⟨_, s₁, hrun₁, hrun⟩ := bind_eq_ok.1 hrun
  obtain ⟨-, -, rfl⟩ := (Runs.expect .kwImport).ok hrun₁
  obtain ⟨_, s₂, hrun₂, hrun⟩ := bind_eq_ok.1 hrun
  obtain ⟨-, -, rfl⟩ := (Runs.expect .leftBrace).ok hrun₂
  obtain ⟨_, s₃, hrun₃, hrun⟩ := bind_eq_ok.1 hrun
  have hnames := (Course.Yields.commaList_forall (C := .steady .free)
    (fun _ => Course.Yields.name) (fun _ _ _ _ h => h) ⟨.refl _, .intro⟩).ok hrun₃
  obtain ⟨_, s₄, hrun₄, hrun⟩ := bind_eq_ok.1 hrun
  obtain ⟨-, -, rfl⟩ := (Runs.expect .rightBrace).ok hrun₄
  obtain ⟨_, s₅, hrun₅, hrun⟩ := bind_eq_ok.1 hrun
  obtain ⟨-, ⟨hfrom, -⟩, rfl⟩ := (Runs.expect .kwFrom).ok hrun₅
  obtain ⟨_, s₆, hrun₆, hrun⟩ := bind_eq_ok.1 hrun
  obtain ⟨rfl, ⟨hstring, -⟩, -⟩ := (Runs.expect .string).ok hrun₆
  cases hrun
  refine ⟨s₃.next.stream.current, hfrom, hstring, ?_⟩
  -- the two words stand next to each other, and were reached by taking tokens
  have hwords : s₃.next.stream.words = s₃.next.stream.current :: s₃.next.next.stream.words := by
    refine Token.Stream.words_eq_cons ?_
    rw [hfrom, show s₃.next.stream.next.2.current.kind = .string from hstring]
    decide
  have hopen : s.stream.Moves s.next.next.stream := .tail (.tail .refl rfl) rfl
  have hmoves : s.stream.Moves s₃.next.stream := (hopen.trans hnames.1.1.stream.moves).tail rfl
  refine List.IsInfix.trans ?_ hmoves.words_suffix.isInfix
  rw [hwords]
  exact ⟨[], _, rfl⟩

/-! ## Modules that are read -/

theorem Module.check_file (config : Config) (vars : VariableArena) (m : Module) (a : TypeArena) :
    (m.check config vars a).1.1.file = m.file := by
  obtain ⟨file, body, scope, span⟩ := m
  rfl

namespace Visit

/-- The file of the module. -/
def file (v : Visit) : SourceFile := .ofPath v.path v.text

/-- While the module `v` is read, an import is due that has the module `w` compiled; the token names
it. -/
def CallsBy (files : FileTree) (v : Visit) (token : Token) (w : Visit) : Prop :=
  ∃ u, v.Imports files u token w.path ∧ files.key w.path ∉ u.session.loading ∧
    files.read w.path = .ok w.text ∧ w.session = u.session

theorem CallsBy.calls (h : v.CallsBy files token w) : v.Calls files w := by
  obtain ⟨u, hu⟩ := h
  exact ⟨u, token, hu⟩

theorem Calls.remaining_lt (h : v.Calls files w) :
    files.remaining (w.stack files) < files.remaining (v.stack files) := by
  obtain ⟨hloading, hkey⟩ := h.stack
  obtain ⟨_, _, -, -, hread, -⟩ := h
  unfold Visit.stack
  rw [hloading]
  exact FileTree.remaining_lt hkey hread

theorem CallsBy.follows_from (h : v.CallsBy files token w) : token.FollowsFrom v.text := by
  obtain ⟨u, ⟨⟨stream, room, blocks, hstream, hu⟩, names, t, himport⟩, -⟩ := h
  obtain ⟨word, hword, htoken, hwords⟩ := himport.follows_from
  refine ⟨word, hword, htoken, ?_⟩
  rw [← Token.Stream.words_ofSource hstream]
  exact hwords.trans hu.moves.words_suffix.isInfix

theorem read_file (h : v.read files = (.ok m, t)) : m.file = v.file := by
  obtain ⟨stream, state, -, hrun, -⟩ := readModule_eq_ok h
  obtain ⟨room, u, -, -, hfile, -⟩ := Grammar.module_ends.ok hrun
  exact hfile

theorem read_ok (hload : ∀ {path text s m t}, compile files path text s = (some m, t) → s.Quiet t)
    (h : v.read files = (.ok m, t)) : v.session.Quiet t ∧ m.block.Laid (Span.IsIn v.text) := by
  obtain ⟨_, _, -, hblock⟩ := readModule_occupies h
  obtain ⟨stream, state, hstream, hrun, rfl⟩ := readModule_eq_ok h
  have hplaced := ParserState.placed_of_ofSource hstream (v.session.marked files v.path)
  have henv : (v.env files).LoadsQuietly := hload
  have hquiet := (Grammar.module_runs henv hplaced).ok hrun
  have hmarked : v.session.Quiet (v.session.marked files v.path) := .of_eq rfl rfl rfl
  exact ⟨hmarked.trans hquiet, hblock.laid⟩

/-- A module is refused for its own text, or for one that it imports. -/
theorem read_error
    (hload : ∀ {path text s m t}, compile files path text s = (some m, t) → s.Quiet t)
    (h : v.read files = (.error f, t)) :
    (f.Own v.text ∧ v.session.Quiet t) ∨
      ∃ token w, v.CallsBy files token w ∧ token.span.IsIn v.text ∧
        f = ⟨token.span, .failedImport token.text⟩ ∧ v.session.Quiet w.session ∧
        compile files w.path w.text w.session = (none, t) := by
  have hmarked : v.session.Quiet (v.session.marked files v.path) := .of_eq rfl rfl rfl
  rcases readModule_cases files (compile files) (.ofPath v.path v.text)
      (v.session.marked files v.path) with ⟨g, hsource, hread⟩ | ⟨stream, hstream, hread⟩
  · -- the text does not even start with a token
    have heq := hread.symm.trans h
    cases heq
    have hlies := (Token.readings_laid v.text).lies (Token.Stream.mem_of_ofSource hsource)
    exact .inl ⟨hlies, hmarked⟩
  · have hplaced := ParserState.placed_of_ofSource hstream (v.session.marked files v.path)
    have henv : (v.env files).LoadsQuietly := hload
    cases hrun : Grammar.module (v.env files)
        { stream, session := v.session.marked files v.path } with
    | mk r u =>
      have heq := (hread r u hrun).symm.trans h
      cases heq
      cases (Grammar.module_runs henv hplaced).error hrun with
      | own hown hquiet => exact .inl ⟨hown, hmarked.trans hquiet⟩
      | @load room blocks s y names token path text _ hs hquiet himport htoken hkey hfile hloads =>
        refine .inr ⟨token, ⟨path, text, s.session⟩, ⟨s, ?_, hkey, hfile, rfl⟩, htoken, rfl,
          hmarked.trans hquiet, hloads⟩
        exact ⟨⟨stream, room, blocks, hstream, hs⟩, names, y, himport⟩

end Visit

/-! ## Modules that are compiled -/

namespace Session

theorem compileWith_quiet {load : Loader}
    (hload : ∀ {path text s m t}, load path text s = (some m, t) → s.Quiet t)
    (h : compileWith files load path text s = (some m, t)) : s.Quiet t := by
  obtain ⟨m', u, types, hparse, -, rfl⟩ := compileWith_eq_some_iff.1 h
  obtain ⟨y, hread, rfl⟩ := parseWith_eq_some hparse
  obtain ⟨stream, state, hstream, hrun, rfl⟩ := readModule_eq_ok hread
  have hplaced := ParserState.placed_of_ofSource hstream (s.marked files path)
  have henv : ParserEnv.LoadsQuietly ⟨files, .ofPath path text, load⟩ := hload
  have hquiet := (Grammar.module_runs henv hplaced).ok hrun
  have hmarked : s.Quiet (s.marked files path) := .of_eq rfl rfl rfl
  exact (hmarked.trans hquiet).trans (.of_eq rfl rfl rfl)

/-- A call that succeeds reports nothing. -/
theorem compile_quiet (h : compile files path text s = (some m, t)) : s.Quiet t :=
  compile_induct files
    (P := fun load => ∀ {path text s m t}, load path text s = (some m, t) → s.Quiet t)
    (fun h => by cases h) (fun _ hload _ _ _ _ _ => compileWith_quiet hload) h

end Session

/-! ## Modules that are refused -/

namespace Visit

/-- The module is refused for a fault of its own, found while it is read or when it is checked. -/
inductive Raises (files : FileTree) (v : Visit) : Fault → Prop
  /-- The module cannot be read, and no import is the reason. -/
  | reading {f : Fault} {t : Session} : v.read files = (.error f, t) →
    (∀ x, f.cause ≠ .failedImport x) → v.session.Quiet t → Raises files v f
  /-- The module is read, and checking it finds a fault. -/
  | checking {f : Fault} {t : Session} {m m' : Module} {types : TypeArena} :
    v.read files = (.ok m, t) → v.session.Quiet t →
    m.check t.config t.vars t.types = ((m', .error f), types) → Raises files v f

/-- The module is refused with the fault. -/
inductive Refuses (files : FileTree) (v : Visit) : Fault → Prop
  | reading {f : Fault} {t : Session} : v.read files = (.error f, t) → Refuses files v f
  | checking {f : Fault} {t : Session} {m m' : Module} {types : TypeArena} :
    v.read files = (.ok m, t) → m.check t.config t.vars t.types = ((m', .error f), types) →
    Refuses files v f

/-- A chain of imports leads from one module to another.  It is given by the modules that import,
the first one first, each with the string that names the next module. -/
inductive Chain (files : FileTree) : Visit → List (Visit × Token) → Visit → Prop
  /-- There is nothing between a module and itself. -/
  | nil {v : Visit} : Chain files v [] v
  /-- A module imports the next one of the chain. -/
  | cons {v w inner : Visit} {token : Token} {links : List (Visit × Token)} :
    v.CallsBy files token w → Chain files w links inner → Chain files v ((v, token) :: links) inner

/-- What is reported for a module that imports a module which is refused. -/
def failure (link : Visit × Token) : SourceFile × Diagnostic :=
  (link.1.file, ⟨link.2.span, s!"failed to load module '{link.2.text}'"⟩)

theorem Chain.calls {links : List (Visit × Token)} (h : Chain files root links inner) :
    ReflTransGen (Calls files) root inner ∧
      ∀ link ∈ links, ReflTransGen (Calls files) root link.1 := by
  induction h with
  | nil => exact ⟨.refl, fun _ hlink => nomatch hlink⟩
  | cons hcalls _ ih =>
    refine ⟨.head hcalls.calls ih.1, fun link hlink => ?_⟩
    rcases List.mem_cons.1 hlink with rfl | hlink
    · exact .refl
    · exact .head hcalls.calls (ih.2 link hlink)

theorem Chain.follows_from {links : List (Visit × Token)} (h : Chain files root links inner) :
    ∀ link ∈ links, link.2.FollowsFrom link.1.text := by
  induction h with
  | nil => exact fun _ hlink => nomatch hlink
  | cons hcalls _ ih =>
    intro link hlink
    rcases List.mem_cons.1 hlink with rfl | hlink
    · exact hcalls.follows_from
    · exact ih link hlink

theorem Raises.isIn (h : v.Raises files f) : f.span.IsIn v.text := by
  cases h with
  | reading hread hcause =>
    rcases read_error compile_quiet hread with ⟨hown, -⟩ | ⟨token, w, -, -, rfl, -⟩
    · exact hown.span
    · exact absurd rfl (hcause _)
  | checking hread _ hcheck =>
    exact moduleCheck_isIn (read_ok compile_quiet hread).2 hcheck

/-- A text of line feeds is never refused, so the lines of a text that is refused can be counted. -/
theorem Refuses.fits (h : v.Refuses files f) (hsize : byteLength v.text.toList < UInt32.size) :
    Position.Fits v.text := by
  refine (Position.fits_or_eq hsize).resolve_right fun hfeeds => ?_
  have hstream := Token.Stream.ofSource_lineFeeds hfeeds
  obtain ⟨m, t, hread, hbody⟩ : ∃ m t, v.read files = (.ok m, t) ∧ m.block.body = [] := by
    rcases readModule_cases files (compile files) (.ofPath v.path v.text)
        (v.session.marked files v.path) with ⟨g, hsource, -⟩ | ⟨stream, hsource, hread⟩
    · cases hsource.symm.trans hstream
    · cases hsource.symm.trans hstream
      exact ⟨_, _, hread _ _ rfl, rfl⟩
  cases h with
  | reading hrefused => cases hread.symm.trans hrefused
  | checking hread' hcheck =>
    cases hread.symm.trans hread'
    obtain ⟨file, body, scope, span⟩ := m
    cases hbody
    cases hcheck

theorem text_mem (h : ReflTransGen (Calls files) root v) :
    v.text = root.text ∨ ∃ place, (place, .text v.text) ∈ files.nodes := by
  cases h with
  | refl => exact .inl rfl
  | tail _ hcall =>
    obtain ⟨_, _, -, -, hread, -⟩ := hcall
    obtain ⟨place, -, hnode⟩ := FileTree.read_eq_ok hread
    exact .inr ⟨place, FileTree.mem_nodes_of_node? hnode⟩

theorem Raises.refuses (h : v.Raises files f) : v.Refuses files f := by
  cases h with
  | reading hread => exact .reading hread
  | checking hread _ hcheck => exact .checking hread hcheck

/-- A call that fails reports its own fault, or that of an import behind the others. -/
theorem compile_eq_none (h : compile files v.path v.text v.session = (none, t)) :
    (∃ f, v.Raises files f ∧ v.session.Logs [(v.file, f.diagnostic)] t) ∨
      ∃ token w u, v.CallsBy files token w ∧ token.span.IsIn v.text ∧
        v.Refuses files ⟨token.span, .failedImport token.text⟩ ∧ v.session.Quiet w.session ∧
        compile files w.path w.text w.session = (none, u) ∧ u.Logs [failure (v, token)] t := by
  rw [← compileWith_compile, compileWith_apply] at h
  cases hread : v.read files with
  | mk found u =>
    have hunmarked : u.Quiet u.unmarked := .of_eq rfl rfl rfl
    cases found with
    | error f =>
      rw [parseWith_of_fault hread] at h
      obtain rfl := (Prod.mk.inj h).2
      have hreport := hunmarked.logs (logs_report u.unmarked v.file f.diagnostic)
      rcases read_error compile_quiet hread with
        ⟨hown, hquiet⟩ | ⟨token, w, hcalls, htoken, rfl, hquiet, hloads⟩
      · exact .inl ⟨f, .reading hread hown.cause hquiet, hquiet.logs hreport⟩
      · exact .inr ⟨token, w, u, hcalls, htoken, .reading hread, hquiet, hloads, hreport⟩
    | ok m =>
      rw [parseWith_of_read hread] at h
      obtain ⟨hquiet, -⟩ := read_ok compile_quiet hread
      change (if (validate m u.unmarked).1.1 then some (validate m u.unmarked).1.2 else none,
        (validate m u.unmarked).2) = (none, t) at h
      cases hcheck : m.check u.config u.vars u.types with
      | mk checked types =>
        obtain ⟨m', found⟩ := checked
        have hvalidate : validate m u.unmarked =
            let concluded := conclude m'.file found { u.unmarked with types }
            ((concluded.1.isSome, m'), concluded.2) := by
          rw [validate_apply, show m.check u.unmarked.config u.unmarked.vars u.unmarked.types = _
            from hcheck]
        rw [hvalidate] at h
        cases found with
        | ok _ => cases h
        | error f =>
          obtain rfl := (Prod.mk.inj h).2
          have hfile : m'.file = v.file := by
            rw [← read_file hread, ← Module.check_file u.config u.vars m u.types, hcheck]
          have hchecked : u.Quiet { u.unmarked with types } := .of_eq rfl rfl rfl
          refine .inl ⟨f, .checking hread hquiet hcheck, ?_⟩
          rw [← hfile]
          exact hquiet.logs (hchecked.logs (logs_report _ m'.file f.diagnostic))

/-- A refusal is passed on along the imports, innermost first. -/
theorem refused_chain (h : compile files v.path v.text v.session = (none, t)) :
    ∃ inner f links, Chain files v links inner ∧ inner.Raises files f ∧
      (∀ link ∈ links, link.2.span.IsIn link.1.text ∧
        link.1.Refuses files ⟨link.2.span, .failedImport link.2.text⟩) ∧
      v.session.Logs ((inner.file, f.diagnostic) :: links.reverse.map failure) t := by
  induction hn : files.remaining (v.stack files) using Nat.strongRecOn generalizing v t with
  | ind n ih =>
    rcases compile_eq_none h with
      ⟨f, hraises, hlogs⟩ | ⟨token, w, u, hcalls, htoken, hrefuses, hquiet, hloads, hreport⟩
    · exact ⟨v, f, [], .nil, hraises, (fun _ hlink => nomatch hlink), hlogs⟩
    · obtain ⟨inner, f, links, hchain, hraises, hlinks, hlogs⟩ :=
        ih _ (hn ▸ hcalls.calls.remaining_lt) hloads rfl
      refine ⟨inner, f, (v, token) :: links, .cons hcalls hchain, hraises, ?_, ?_⟩
      · intro link hlink
        rcases List.mem_cons.1 hlink with rfl | hlink
        · exact ⟨htoken, hrefuses⟩
        · exact hlinks link hlink
      · -- the failure of the outermost import is reported last
        have hall := hquiet.logs (hlogs.trans hreport)
        rw [List.reverse_cons, List.map_append]
        exact hall

end Visit

/-! ## What is reported -/

namespace Session

/-- A call succeeds if it reports nothing. -/
theorem compile_isSome_iff (files : FileTree) (path : Path) (text : String) (s : Session) :
    (compile files path text s).1.isSome ↔
      (compile files path text s).2.reported = s.reported := by
  cases hrun : compile files path text s with
  | mk found t =>
    cases found with
    | some m => simpa using (Logs.reported_eq_iff (compile_quiet hrun)).2 rfl
    | none =>
      obtain ⟨inner, f, links, -, -, -, hlogs⟩ := Visit.refused_chain (v := ⟨path, text, s⟩) hrun
      have hne : t.reported ≠ s.reported := fun h => nomatch hlogs.reported_eq_iff.1 h
      simpa using hne

theorem compileFile_of_logs {file : SourceFile} {d : Diagnostic}
    {log : List (SourceFile × Diagnostic)} (hread : files.read path = .ok text)
    (hnone : (compile files path text s).1 = none)
    (hlogs : s.Logs ((file, d) :: log) (compile files path text s).2) :
    compileFile files path s = (.error (.refused d), (compile files path text s).2) := by
  cases hrun : compile files path text s with
  | mk found t =>
    rw [hrun] at hnone hlogs
    obtain rfl : found = none := hnone
    have hcompile : compileFile files path s =
        (.error (.refused (((t.reported.drop s.reported.length).head?).getD
          ⟨{}, "compilation failed"⟩)), t) := by
      have hget : (get : StateM Session Session) s = (s, s) := rfl
      unfold compileFile
      rw [hread]
      simp only [bind, StateT.bind, hget, hrun]
      rfl
    rw [hcompile, hlogs.reported, List.drop_left]
    rfl

/-- **Reports follow the chain of imports.**  A module is compiled exactly if nothing is reported.
Otherwise a chain of imports leads from it to a module with a fault of its own.  This fault is
reported first.  After it comes one report for each module of the chain, the innermost first: that
the import which leads on failed, at the string that names the module.  What is given back for a
file is the first of them. -/
theorem compile_reports_chain (files : FileTree) (path : Path) (text : String) (s : Session) :
    ((compile files path text s).1.isSome ↔
      (compile files path text s).2.reported = s.reported) ∧
    ((compile files path text s).1 = none → ∃ inner f links,
      Visit.Chain files ⟨path, text, s⟩ links inner ∧ inner.Raises files f ∧
      (∀ link ∈ links, link.2.FollowsFrom link.1.text ∧
        link.1.Refuses files ⟨link.2.span, .failedImport link.2.text⟩) ∧
      s.Logs ((inner.file, f.diagnostic) :: links.reverse.map Visit.failure)
        (compile files path text s).2 ∧
      (compile files path text s).2.reported.length = s.reported.length + (links.length + 1) ∧
      (files.read path = .ok text → compileFile files path s =
        (.error (.refused f.diagnostic), (compile files path text s).2))) := by
  refine ⟨compile_isSome_iff files path text s, fun hnone => ?_⟩
  have hrun : compile files path text s = (none, (compile files path text s).2) :=
    Prod.ext hnone rfl
  obtain ⟨inner, f, links, hchain, hraises, hlinks, hlogs⟩ :=
    Visit.refused_chain (v := ⟨path, text, s⟩) hrun
  refine ⟨inner, f, links, hchain, hraises, ?_, hlogs, ?_, ?_⟩
  · intro link hlink
    exact ⟨hchain.follows_from link hlink, (hlinks link hlink).2⟩
  · rw [hlogs.reported]
    simp
  · intro hread
    exact compileFile_of_logs hread hnone hlogs

set_option maxRecDepth 4000 in
/-- A module imports a second one, which imports a third one with a fault. -/
theorem compile_reports_chain_three :
    let files : FileTree := ⟨"/", [
      (["main.lua"], .text "import \x7b y \x7d from \"./mid\""),
      (["mid.lua"], .text "import \x7b x \x7d from \"./lib\" export local y: number = 1"),
      (["lib.lua"], .text "export local x: number = \"one\"")]⟩
    let path : Path := ⟨"main.lua"⟩
    let text := "import \x7b y \x7d from \"./mid\""
    (compile files path text {}).1 = none ∧ files.read path = .ok text ∧
      ∃ inner f links, Visit.Chain files ⟨path, text, {}⟩ links inner ∧ inner.Raises files f ∧
        links.length = 2 ∧
        (compile files path text {}).2.reported =
          f.diagnostic :: (links.reverse.map Visit.failure).map Prod.snd ∧
        (compile files path text {}).2.reported.tail.map Diagnostic.message =
          ["failed to load module './lib'", "failed to load module './mid'"] ∧
        (compileFile files path {}).1 = .error (.refused f.diagnostic) := by
  intro files path text
  have hnone : (compile files path text {}).1 = none := by decide +kernel
  have hread : files.read path = .ok text := by decide +kernel
  obtain ⟨inner, f, links, hchain, hraises, -, hlogs, hlength, hfile⟩ :=
    (compile_reports_chain files path text {}).2 hnone
  refine ⟨hnone, hread, inner, f, links, hchain, hraises, ?_, hlogs.reported, ?_, ?_⟩
  · have hthree : (compile files path text {}).2.reported.length = 3 := by decide +kernel
    rw [hthree] at hlength
    have hzero : ({} : Session).reported.length = 0 := rfl
    omega
  · decide +kernel
  · rw [hfile hread]

/-- **Reports point into the texts that they are about.**  Each is about a module that is compiled,
and tells the fault with which that module is refused.  The text of the module is cut in three where
the span starts and ends, so there is a text under the span, and the report is shown with its source
if that is wanted.  If the size of the text is a 32-bit number, the span gives the lines, columns and
offsets of the two cuts, and the source line is the line around the first cut, less a carriage return
at its end. -/
theorem compile_reports_located (files : FileTree) (path : Path) (text : String) (s : Session) :
    ∃ log, s.Logs log (compile files path text s).2 ∧
      ∀ x ∈ log, ∃ v f before mid after,
        ReflTransGen (Visit.Calls files) ⟨path, text, s⟩ v ∧ v.Refuses files f ∧
        x = (v.file, f.diagnostic) ∧ x.2.Cuts v.file before mid after ∧
        (byteLength v.text.toList < UInt32.size → x.2.Counts v.file before mid after) := by
  have hcut : ∀ {v : Visit} {f : Fault}, v.Refuses files f → f.span.IsIn v.text →
      ∃ before mid after, f.diagnostic.Cuts v.file before mid after ∧
        (byteLength v.text.toList < UInt32.size → f.diagnostic.Counts v.file before mid after) := by
    intro v f hrefuses hspan
    have hspan : f.diagnostic.span.IsIn v.file.text := hspan
    obtain ⟨before, mid, after, hcuts, hcounts⟩ := Diagnostic.located hspan
    exact ⟨before, mid, after, hcuts, fun hsize => hcounts (hrefuses.fits hsize)⟩
  cases hrun : compile files path text s with
  | mk found t =>
    cases found with
    | some m => exact ⟨[], compile_quiet hrun, fun _ hx => nomatch hx⟩
    | none =>
      obtain ⟨inner, f, links, hchain, hraises, hlinks, hlogs⟩ :=
        Visit.refused_chain (v := ⟨path, text, s⟩) hrun
      obtain ⟨hinner, hcalls⟩ := hchain.calls
      refine ⟨_, hlogs, fun x hx => ?_⟩
      rcases List.mem_cons.1 hx with rfl | hx
      · obtain ⟨before, mid, after, hlocated⟩ := hcut hraises.refuses hraises.isIn
        exact ⟨inner, f, before, mid, after, hinner, hraises.refuses, rfl, hlocated⟩
      · obtain ⟨link, hlink, rfl⟩ := List.mem_map.1 hx
        have hlink := List.mem_reverse.1 hlink
        obtain ⟨htoken, hrefuses⟩ := hlinks link hlink
        obtain ⟨before, mid, after, hlocated⟩ := hcut hrefuses htoken
        exact ⟨link.1, _, before, mid, after, hcalls link hlink, hrefuses, rfl, hlocated⟩

set_option maxRecDepth 4000 in
/-- A fault on the second line of an imported module, after a letter of two bytes; the line ends in
a carriage return. -/
theorem compile_reports_located_second_line :
    let files : FileTree := ⟨"/", [
      (["main.lua"], .text "import \x7b x \x7d from \"./lib\""),
      (["lib.lua"], .text "\nexport local x: string = \"é\" local y: number = \"one\"\r\n")]⟩
    let path : Path := ⟨"main.lua"⟩
    let text := "import \x7b x \x7d from \"./lib\""
    (compile files path text {}).2.reported.map (·.span.start) = [⟨2, 48, 49⟩, ⟨1, 18, 18⟩] ∧
      ∃ (v : Visit) (f : Fault) (before mid after : List Char), v.Refuses files f ∧
        (compile files path text {}).2.reported.head? = some f.diagnostic ∧
        v.text.toList = before ++ mid ++ after ∧
        f.span = ⟨.ending before, .ending (before ++ mid)⟩ ∧
        f.diagnostic.sourceLine v.text = String.ofList (Diagnostic.withoutReturn
          (lastLine before ++ (mid ++ after).takeWhile (· != '\n'))) ∧
        f.diagnostic.render v.file true = Snippet.render f.diagnostic v.file := by
  intro files path text
  have hstarts : (compile files path text {}).2.reported.map (·.span.start) =
      [⟨2, 48, 49⟩, ⟨1, 18, 18⟩] := by decide +kernel
  refine ⟨hstarts, ?_⟩
  obtain ⟨log, hlogs, hlocated⟩ := compile_reports_located files path text {}
  cases log with
  | nil =>
    rw [hlogs.reported] at hstarts
    cases hstarts
  | cons x log =>
    obtain ⟨v, f, before, mid, after, hcalls, hrefuses, rfl, hcuts, hcounts⟩ :=
      hlocated _ List.mem_cons_self
    have hsize : byteLength v.text.toList < UInt32.size := by
      rcases Visit.text_mem hcalls with hroot | ⟨place, hnode⟩
      · rw [hroot]
        decide
      · simp only [files, List.mem_cons, Prod.mk.injEq, FileNode.text.injEq, List.not_mem_nil,
          or_false] at hnode
        rcases hnode with ⟨-, hnode⟩ | ⟨-, hnode⟩
        · rw [hnode]
          decide
        · rw [hnode]
          decide
    have hcounts := hcounts hsize
    refine ⟨v, f, before, mid, after, hrefuses, ?_, hcuts.text, hcounts.span, hcounts.sourceLine,
      hcuts.shown⟩
    rw [hlogs.reported]
    rfl

end Session

end TypedLua
