import TypedLua.Proofs.Session.Loading

/-!
# Session.Imports

Modules that import each other.  Calls that compile modules form a chain, each reading an import
that makes the next one; the files of a chain are those that are being loaded, and no file is in it
twice.  An import is refused as circular only if its file is in the chain.  If a module is compiled,
then no file that it needs, directly or not, needs itself.

Main statement: `Session.compile_imports`.
-/

namespace TypedLua

open Text Session Relation

/-! ## Chains of calls -/

/-- A call that compiles a module. -/
structure Visit where
  path : Path
  text : String
  session : Session

namespace Visit

variable {files : FileTree} {root v w : Visit} {u : ParserState}

/-- What the parser of the module may consult. -/
def env (files : FileTree) (v : Visit) : ParserEnv :=
  ⟨files, .ofPath v.path v.text, compile files⟩

/-- The files that are being loaded while the module is read, its own first. -/
def stack (files : FileTree) (v : Visit) : List (List String) :=
  files.key v.path :: v.session.loading

/-- What reading the module comes to. -/
def read (files : FileTree) (v : Visit) : Except Fault Module × Session :=
  readModule files (compile files) (.ofPath v.path v.text) (v.session.marked files v.path)

/-- While the module is read, a statement is due in the state. -/
def Due (files : FileTree) (v : Visit) (u : ParserState) : Prop :=
  ∃ stream room blocks, Token.Stream.ofSource v.text = .ok stream ∧
    Grammar.Boundary (v.env files) { stream, session := v.session.marked files v.path } room blocks
      u

/-- While the module is read, an import is due in the state; it names the file at a path. -/
def Imports (files : FileTree) (v : Visit) (u : ParserState) (token : Token) (path : Path) : Prop :=
  v.Due files u ∧ ∃ names t, Grammar.ImportsAt (v.env files) (Grammar.opened u) names token path t

/-- While the module `v` is read, an import is due that has the module `w` compiled. -/
def Calls (files : FileTree) (v w : Visit) : Prop :=
  ∃ u token, v.Imports files u token w.path ∧ files.key w.path ∉ u.session.loading ∧
    files.read w.path = .ok w.text ∧ w.session = u.session

theorem Due.loading_eq (h : v.Due files u) : u.session.loading = v.stack files := by
  obtain ⟨stream, room, blocks, -, hu⟩ := h
  exact hu.loading_eq (compile_loading files)

/-- A nested call is made for a file that is not being loaded. -/
theorem Calls.stack (h : v.Calls files w) :
    w.session.loading = v.stack files ∧ files.key w.path ∉ v.stack files := by
  obtain ⟨u, token, himports, hkey, -, hsession⟩ := h
  have hloading := himports.1.loading_eq
  rw [hsession, hloading]
  rw [hloading] at hkey
  exact ⟨rfl, hkey⟩

theorem Calls.of_first {path : Path} {text : String}
    (h : ((startParser v.text (v.session.marked files v.path)).toOption.bind fun start =>
      (Grammar.importHead (v.env files) (Grammar.opened (Grammar.begun start))).1.toOption.bind
        fun head => (SourceFile.ofPath v.path v.text).importPath? head.2.text) = some path)
    (hkey : files.key path ∉ v.stack files) (hread : files.read path = .ok text) :
    v.Calls files ⟨path, text, v.session.marked files v.path⟩ := by
  unfold startParser at h
  cases hsource : Token.Stream.ofSource v.text with
  | error f =>
    rw [hsource] at h
    cases h
  | ok stream =>
    rw [hsource] at h
    let start : ParserState := { stream, session := v.session.marked files v.path }
    have hdue : v.Due files (Grammar.begun start) := ⟨stream, _, _, hsource, .start⟩
    cases hhead : Grammar.importHead (v.env files) (Grammar.opened (Grammar.begun start)) with
    | mk found t =>
      change (Grammar.importHead (v.env files)
        (Grammar.opened (Grammar.begun start))).1.toOption.bind _ = _ at h
      rw [hhead] at h
      cases found with
      | error f => cases h
      | ok head =>
        obtain ⟨names, token⟩ := head
        refine ⟨Grammar.begun start, token, ⟨hdue, names, t, hhead, h⟩, ?_, hread, rfl⟩
        rw [hdue.loading_eq]
        exact hkey

/-- No file is loaded while it is being loaded. -/
theorem stack_nodup (hroot : (root.stack files).Nodup) (h : ReflTransGen (Calls files) root v) :
    (v.stack files).Nodup := by
  induction h with
  | refl => exact hroot
  | tail _ hcall ih =>
    obtain ⟨hloading, hkey⟩ := hcall.stack
    unfold Visit.stack
    rw [hloading]
    exact List.nodup_cons.2 ⟨hkey, ih⟩

theorem mem_stack (h : ReflTransGen (Calls files) root v) {key : List String}
    (hkey : key ∈ v.stack files) : key ∈ root.session.loading ∨
      ∃ w, ReflTransGen (Calls files) root w ∧ ReflTransGen (Calls files) w v ∧
        files.key w.path = key := by
  induction h with
  | refl =>
    rcases List.mem_cons.1 hkey with rfl | hkey
    · exact .inr ⟨root, .refl, .refl, rfl⟩
    · exact .inl hkey
  | @tail v v' hv hcall ih =>
    rcases List.mem_cons.1 hkey with rfl | hkey
    · exact .inr ⟨v', hv.tail hcall, .refl, rfl⟩
    · rw [hcall.stack.1] at hkey
      rcases ih hkey with hbefore | ⟨w, hw, hwv, hkey⟩
      · exact .inl hbefore
      · exact .inr ⟨w, hw, hwv.tail hcall, hkey⟩

/-- An import is circular if its file is being loaded. -/
theorem circular_of_read {f : Fault} {t : Session} {x : String}
    (h : v.read files = (.error f, t)) (hcause : f.cause = .circularImport x) :
    ∃ u token path, v.Imports files u token path ∧
      f = ⟨token.span, .circularImport (path.absolute files.here).text⟩ ∧
      files.key path ∈ v.stack files := by
  have hlocal : ¬ f.cause.Local := by
    rw [hcause]
    exact id
  have hlexical : ∀ cause, f.cause ≠ .lexical cause := by
    intro cause hlexical
    rw [hcause] at hlexical
    cases hlexical
  obtain ⟨stream, state, hstream, hmodule⟩ := readModule_eq_error h hlexical
  have htraced : Grammar.Traced (v.env files)
      { stream, session := v.session.marked files v.path } f state.session :=
    Grammar.module_ends.error hmodule
  obtain ⟨room, blocks, u, w, hu, -, hrefused, hnone⟩ := htraced.statement_of_cause
    (Token.Stream.upcoming_ofSource hstream).subset hlocal hlexical
  have hdue : v.Due files u := ⟨stream, room, blocks, hstream, hu⟩
  cases hrefused with
  | admitted hf =>
    cases hf.1 with
    | lexical hf => exact absurd hf hnone
    | here hf => exact absurd hf hlocal
    | unknown => cases hcause
  | failed => cases hcause
  | @circular names token path t _ _ himport hkey hf =>
    refine ⟨u, token, path, ⟨hdue, names, t, himport⟩, hf, ?_⟩
    rw [← hdue.loading_eq]
    exact hkey

end Visit

/-! ## Imports in texts -/

namespace FileTree

variable {files : FileTree} {root a b : Path × String}

/-- The text of the module `a` names the file of the module `b` in an import. -/
def Imports (files : FileTree) (a b : Path × String) : Prop :=
  ∃ x ∈ Token.sources (Token.words a.2), (SourceFile.ofPath a.1 a.2).importPath? x = some b.1 ∧
    files.read b.1 = .ok b.2

/-- The file `k` imports the file `k'`, as far as `root` needs it. -/
def FileImports (files : FileTree) (root : Path × String) (k k' : List String) : Prop :=
  ∃ a b, ReflTransGen (Imports files) root a ∧ Imports files a b ∧ files.key a.1 = k ∧
    files.key b.1 = k'

theorem Imports.congr {a' : Path × String} (h : files.Imports a b) (ha : files.read a.1 = .ok a.2)
    (ha' : files.read a'.1 = .ok a'.2) (hkey : files.key a.1 = files.key a'.1) :
    ∃ b', files.Imports a' b' ∧ files.key b'.1 = files.key b.1 := by
  obtain ⟨x, hx, hpath, hread⟩ := h
  obtain ⟨htext, hsame⟩ := locate_importPath ha ha' hkey
  obtain ⟨q, hq, hplace⟩ := hsame x _ hpath
  have hread' : files.read q = .ok b.2 := by
    unfold read at hread ⊢
    rw [hplace]
    exact hread
  refine ⟨(q, b.2), ⟨x, htext ▸ hx, hq, hread'⟩, ?_⟩
  obtain ⟨names, hnames, -⟩ := read_eq_ok hread
  rw [key_of_locate hnames, key_of_locate (hplace.trans hnames)]

end FileTree

/-! ## Compiled modules -/

namespace Session

variable {files : FileTree} {root a b : Path × String} {loading : List (List String)}

/-- The module is compiled in some session in which the given files are being loaded. -/
def Compiles (files : FileTree) (loading : List (List String)) (a : Path × String) : Prop :=
  ∃ s m t, s.loading = loading ∧ compile files a.1 a.2 s = (some m, t)

/-- What a compiled module imports compiles, without what is being loaded. -/
theorem Compiles.imports (h : Compiles files loading a) (hab : files.Imports a b) :
    files.key b.1 ∉ files.key a.1 :: loading ∧
      Compiles files (files.key a.1 :: loading) b := by
  obtain ⟨s, m, t, rfl, hcompile⟩ := h
  obtain ⟨x, hx, hpath, hread⟩ := hab
  rw [← compileWith_compile] at hcompile
  obtain ⟨m', u, hparse, -, -⟩ := compileWith_eq_some hcompile
  obtain ⟨u', hmodule, -⟩ := parseWith_eq_some hparse
  obtain ⟨stream, state, hstream, hgrammar, -⟩ := readModule_eq_ok hmodule
  -- the import was met before the end of the text
  have himported := Grammar.imported_of_module hgrammar (Token.Stream.words_ofSource hstream) hx
  obtain @⟨room, blocks, u, w, names, token, path, text, source, session, hu, himport, hkey,
    hread', hload⟩ := himported
  have hloading : u.session.loading = files.key a.1 :: s.loading :=
    hu.loading_eq (compile_loading files)
  obtain rfl : path = b.1 := Option.some.inj (himport.2.symm.trans hpath)
  obtain rfl : text = b.2 := Except.ok.inj (hread'.symm.trans hread)
  rw [← hloading]
  exact ⟨hkey, u.session, source, session, rfl, hload⟩

theorem Compiles.needs (h : Compiles files loading a) (hab : ReflTransGen files.Imports a b) :
    ∃ more, Compiles files more b ∧ files.key a.1 :: loading ⊆ files.key b.1 :: more := by
  induction hab with
  | refl => exact ⟨loading, h, List.Subset.refl _⟩
  | @tail b c _ hbc ih =>
    obtain ⟨more, hb, hsub⟩ := ih
    exact ⟨_, (hb.imports hbc).2, List.subset_cons_of_subset _ hsub⟩

theorem Compiles.key_notMem (h : Compiles files loading a)
    (hab : TransGen files.Imports a b) : files.key b.1 ∉ files.key a.1 :: loading := by
  obtain ⟨c, hac, hcb⟩ := TransGen.tail'_iff.1 hab
  obtain ⟨more, hc, hsub⟩ := h.needs hac
  intro hmem
  exact (hc.imports hcb).1 (hsub hmem)

theorem Compiles.eq_or_read (h : Compiles files loading root)
    (ha : ReflTransGen files.Imports root a) (hb : ReflTransGen files.Imports root b)
    (hkey : files.key a.1 = files.key b.1) :
    a = b ∨ files.read a.1 = .ok a.2 ∧ files.read b.1 = .ok b.2 := by
  have hread : ∀ {c}, TransGen files.Imports root c → files.read c.1 = .ok c.2 := by
    intro c hc
    obtain ⟨d, -, x, -, -, hread⟩ := TransGen.tail'_iff.1 hc
    exact hread
  rcases reflTransGen_iff_eq_or_transGen.1 ha with rfl | ha
  · rcases reflTransGen_iff_eq_or_transGen.1 hb with rfl | hb
    · exact .inl rfl
    · exact absurd (hkey ▸ List.mem_cons_self) (h.key_notMem hb)
  · rcases reflTransGen_iff_eq_or_transGen.1 hb with rfl | hb
    · exact absurd (hkey ▸ List.mem_cons_self) (h.key_notMem ha)
    · exact .inr ⟨hread ha, hread hb⟩

theorem Compiles.imports_of_file (h : Compiles files loading root) {k k' : List String}
    (hfile : files.FileImports root k k') (ha : ReflTransGen files.Imports root a)
    (hkey : files.key a.1 = k) : ∃ b, files.Imports a b ∧ files.key b.1 = k' := by
  obtain ⟨c, d, hc, hcd, hck, hdk⟩ := hfile
  have hsame : files.key c.1 = files.key a.1 := hck.trans hkey.symm
  rcases h.eq_or_read hc ha hsame with rfl | ⟨hreadc, hreada⟩
  · exact ⟨d, hcd, hdk⟩
  · obtain ⟨b, hab, hbk⟩ := hcd.congr hreadc hreada hsame
    exact ⟨b, hab, hbk.trans hdk⟩

theorem Compiles.needs_of_file (h : Compiles files loading root) {k k' : List String}
    (hfile : TransGen (files.FileImports root) k k') (ha : ReflTransGen files.Imports root a)
    (hkey : files.key a.1 = k) : ∃ b, TransGen files.Imports a b ∧ files.key b.1 = k' := by
  induction hfile with
  | single hk =>
    obtain ⟨b, hab, hb⟩ := h.imports_of_file hk ha hkey
    exact ⟨b, .single hab, hb⟩
  | tail _ hk ih =>
    obtain ⟨b, hab, hb⟩ := ih
    obtain ⟨c, hbc, hc⟩ := h.imports_of_file hk (ha.trans hab.to_reflTransGen) hb
    exact ⟨c, hab.tail hbc, hc⟩

/-- The files of a module that compiles do not import each other in a circle. -/
theorem Compiles.acyclic (h : Compiles files loading root) (k : List String) :
    ¬ TransGen (files.FileImports root) k k := by
  intro hcycle
  obtain ⟨k', ⟨a, b, ha, -, hkey, -⟩, -⟩ := TransGen.head'_iff.1 hcycle
  obtain ⟨c, hac, hc⟩ := h.needs_of_file hcycle ha hkey
  obtain ⟨more, ha', -⟩ := h.needs ha
  refine ha'.key_notMem hac ?_
  rw [hc, hkey]
  exact List.mem_cons_self

/-! ## Compiling imports -/

/-- **Modules may import each other in any way.**  Compiling a module comes to an end: calls are
nested no deeper than there are files.  The same files are being loaded before and afterwards, and
on the way none of them twice; other modules are loaded only while this is so, and only if their
files are not being loaded.  If the module is compiled, no file that it needs needs itself or was
being loaded.  An import is refused as circular only if its file is that of a module which leads to
the import, or was being loaded before. -/
theorem compile_imports (files : FileTree) (path : Path) (text : String) (s : Session) :
    (∀ bottom n, files.size < n →
      (compileWith files)^[n] bottom path text s = compile files path text s) ∧
    (compile files path text s).2.loading = s.loading ∧
    ((files.key path :: s.loading).Nodup →
      ∀ v, ReflTransGen (Visit.Calls files) ⟨path, text, s⟩ v →
        (v.stack files).Nodup ∧ (∀ u, v.Due files u → u.session.loading = v.stack files) ∧
        ∀ load, LoadsAlike files (v.stack files) (compile files) load →
          readModule files load (.ofPath v.path v.text) (v.session.marked files v.path) =
            v.read files) ∧
    ((compile files path text s).1.isSome →
      (∀ k, ¬ TransGen (files.FileImports (path, text)) k k) ∧
      ∀ b, TransGen files.Imports (path, text) b →
        files.key b.1 ∉ files.key path :: s.loading) ∧
    ∀ v f t x, ReflTransGen (Visit.Calls files) ⟨path, text, s⟩ v →
      v.read files = (.error f, t) → f.cause = .circularImport x →
      ∃ u token target, v.Imports files u token target ∧
        f = ⟨token.span, .circularImport (target.absolute files.here).text⟩ ∧
        (files.key target ∈ s.loading ∨
          ∃ w, ReflTransGen (Visit.Calls files) ⟨path, text, s⟩ w ∧
            ReflTransGen (Visit.Calls files) w v ∧ files.key w.path = files.key target) := by
  refine ⟨fun bottom n hn => iterate_eq_compile files bottom hn path text s,
    compile_loading files path text s, ?_, ?_, ?_⟩
  · intro hroot v hv
    have hstack : (Visit.stack files ⟨path, text, s⟩).Nodup := hroot
    refine ⟨Visit.stack_nodup hstack hv, fun u hu => hu.loading_eq, fun load hload => ?_⟩
    exact (readModule_alike _ hload fun _ _ _ => (compile_outcome ..).2).1
  · intro hsome
    obtain ⟨m, hm⟩ := Option.isSome_iff_exists.1 hsome
    have hcompiles : Compiles files s.loading (path, text) := ⟨s, m, _, rfl, Prod.ext hm rfl⟩
    exact ⟨hcompiles.acyclic, fun b hb => hcompiles.key_notMem hb⟩
  · intro v f t x hv hread hcause
    obtain ⟨u, token, target, himports, hfault, hkey⟩ := Visit.circular_of_read hread hcause
    exact ⟨u, token, target, himports, hfault, Visit.mem_stack hv hkey⟩

set_option maxRecDepth 4000 in
/-- A module may be needed twice.  A module that is needed by one which it needs is refused, at
the import that comes back to it, by whatever path the import names it. -/
theorem compile_imports_mutual :
    let files : FileTree := ⟨"/src", [
      (["src", "main.lua"], .text "import \x7b y \x7d from \"./mid\""),
      (["src", "mid.lua"], .text "import \x7b x \x7d from \".//lib\" export local y: number = 1"),
      (["lib.lua"], .text "export local x: number = 1"),
      (["src", "back.lua"], .text "import \x7b y \x7d from \"../src/main\"")]⟩
    let path : Path := ⟨"/src/main.lua"⟩
    let twice := "import \x7b x \x7d from \"../lib\" import \x7b y \x7d from \"./mid\""
    let cycle := "import \x7b y \x7d from \"./back\""
    let root : Visit := ⟨path, cycle, {}⟩
    let back : Visit := ⟨⟨"/src/back.lua"⟩, "import \x7b y \x7d from \"../src/main\"",
      root.session.marked files path⟩
    ((compile files path twice {}).1.isSome ∧
      ∀ k, ¬ TransGen (files.FileImports (path, twice)) k k) ∧
    ((compileWith files)^[5] (fun _ _ => return none) path cycle {} = compile files path cycle {} ∧
      (compile files path cycle {}).2.loading = []) ∧
    (root.Calls files back ∧ (back.stack files).Nodup ∧
      readModule files
        (fun p text s =>
          if files.key p ∈ back.stack files then (none, s) else compile files p text s)
        (.ofPath back.path back.text) (back.session.marked files back.path) = back.read files) ∧
    ∃ f t u token target, back.read files = (.error f, t) ∧
      f.cause = .circularImport "/src/../src/main.lua" ∧ back.Imports files u token target ∧
      f.span = token.span ∧ ∃ w, ReflTransGen (Visit.Calls files) root w ∧
        ReflTransGen (Visit.Calls files) w back ∧ files.key w.path = files.key target := by
  intro files path twice cycle root back
  obtain ⟨hends, hloading, hnodup, -, hcircular⟩ := compile_imports files path cycle {}
  have hcalls : root.Calls files back :=
    .of_first (by decide +kernel) (by decide +kernel) (by decide +kernel)
  refine ⟨?_, ⟨hends _ 5 (by decide), hloading⟩, ⟨hcalls, ?_⟩, ?_⟩
  · have hsome : (compile files path twice {}).1.isSome := by decide +kernel
    exact ⟨hsome, ((compile_imports files path twice {}).2.2.2.1 hsome).1⟩
  · obtain ⟨hstack, -, halike⟩ := hnodup (by decide +kernel) back (.single hcalls)
    refine ⟨hstack, halike _ ?_⟩
    intro p text s hs hkey _
    refine ⟨if_neg hkey, ?_⟩
    rw [compile_loading, hs]
  · obtain ⟨f, t, hread, hcause⟩ : ∃ f t, back.read files = (.error f, t) ∧
        f.cause = .circularImport "/src/../src/main.lua" := exists_of_fault (by decide +kernel)
    obtain ⟨u, token, target, himports, rfl, hbefore | hchain⟩ :=
      hcircular back f t _ (.single hcalls) hread hcause
    · cases hbefore
    · exact ⟨_, t, u, token, target, hread, hcause, himports, rfl, hchain⟩

end Session

end TypedLua
