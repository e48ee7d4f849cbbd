import Mathlib.Logic.Function.Iterate
import TypedLua.Proofs.Files.Places
import TypedLua.Proofs.Grammar.Boundaries
import TypedLua.Proofs.Grammar.Likewise
import TypedLua.Proofs.Session.Runs
import TypedLua.Proofs.Typing.Correspondence

/-!
# Session.Loading

Loading modules comes to an end.  A module is loaded only if its file is not being loaded, and marks
its file meanwhile; so every call inside another leaves fewer files to load, and calls are nested no
deeper than there are files.  What would be done at a greater depth never matters.

Main statements: `iterate_eq_compile`, compiling is the same whatever is done below a depth greater
than the number of files, and `compile_outcome`, afterwards the same files are being loaded and what
is given back is regular.
-/

namespace TypedLua

open Text Session

/-! ## Files left to load -/

namespace FileTree

variable {t : FileTree} {loading : List (List String)}

/-- How many places hold something that is not being loaded. -/
def remaining (t : FileTree) (loading : List (List String)) : Nat :=
  t.nodes.countP fun node => decide ("/" :: node.1 ∉ loading)

theorem remaining_le_size (t : FileTree) (loading : List (List String)) :
    t.remaining loading ≤ t.size := List.countP_le_length

theorem mem_nodes_of_node? {names : List String} {content : String}
    (h : t.node? names = some (.text content)) : (names, .text content) ∈ t.nodes := by
  unfold node? at h
  split at h
  · cases h
  · obtain ⟨before, after, hnodes, -⟩ := List.lookup_eq_some_iff.1 h
    rw [hnodes]
    exact List.mem_append_right _ List.mem_cons_self

/-- A file that is loaded is one less to load. -/
theorem remaining_lt {path : Path} {text : String} (hkey : t.key path ∉ loading)
    (hread : t.read path = .ok text) :
    t.remaining (t.key path :: loading) < t.remaining loading := by
  obtain ⟨names, hplace, hnode⟩ := read_eq_ok hread
  rw [key_of_locate hplace] at hkey ⊢
  obtain ⟨before, after, hnodes⟩ := List.append_of_mem (mem_nodes_of_node? hnode)
  have hfewer : ∀ nodes : List (List String × FileNode),
      nodes.countP (fun node => decide ("/" :: node.1 ∉ ("/" :: names) :: loading)) ≤
        nodes.countP fun node => decide ("/" :: node.1 ∉ loading) := by
    intro nodes
    refine List.countP_mono_left fun node _ hnode => ?_
    rw [decide_eq_true_eq] at hnode ⊢
    exact fun hmem => hnode (List.mem_cons_of_mem _ hmem)
  have hbefore := hfewer before
  have hafter := hfewer after
  unfold remaining
  rw [hnodes, List.countP_append, List.countP_append, List.countP_cons, List.countP_cons,
    if_neg (by simp), if_pos (by simpa using hkey)]
  omega

end FileTree

/-! ## Loading alike -/

namespace Session

variable {files : FileTree} {f g : Loader} {path : Path} {text : String} {s : Session}

/-- While the given files are being loaded, the second loader loads every other module as the first
one does; the same files are being loaded afterwards. -/
def LoadsAlike (files : FileTree) (loading : List (List String)) (f g : Loader) : Prop :=
  ∀ {path text s}, s.loading = loading → files.key path ∉ loading → files.read path = .ok text →
    g path text s = f path text s ∧ (f path text s).2.loading = loading

/-- While the given files are being loaded, every other module that is loaded is regular. -/
def LoadsRegular (files : FileTree) (loading : List (List String)) (f : Loader) : Prop :=
  ∀ {path text s}, s.loading = loading → files.key path ∉ loading → files.read path = .ok text →
    ∀ m ∈ (f path text s).1, m.Regular

/-- The parsers load alike what is not being loaded. -/
def loadingAlike (loading : List (List String)) : Likeness where
  Keeps _ l _ := l = loading
  switch c := c
  env e e' := e'.files = e.files ∧ e'.file = e.file ∧ LoadsAlike e.files loading e.load e'.load ∧
    LoadsRegular e.files loading e.load
  lenient := False
  typeless _ := .inr rfl

theorem loadingAlike_loads (loading : List (List String)) : (loadingAlike loading).Loads where
  rescoped _ h := h
  files henv := henv.1
  file henv := henv.2.1
  load {_ _ _ _ _ s} henv hs hkey hread := by
    obtain rfl : s.loading = loading := hs
    obtain ⟨hsame, hloading⟩ := henv.2.2.1 rfl hkey hread
    exact .inr ⟨hloading, hsame, henv.2.2.2 rfl hkey hread⟩

theorem readModule_alike (file : SourceFile) (h : LoadsAlike files s.loading f g)
    (hf : LoadsRegular files s.loading f) :
    readModule files g file s = readModule files f file s ∧
      (readModule files f file s).2.loading = s.loading ∧
      ∀ m, (readModule files f file s).1 = .ok m → m.Regular := by
  unfold readModule startParser
  cases Token.Stream.ofSource file.text with
  | error e => exact ⟨rfl, rfl, nofun⟩
  | ok stream =>
    obtain ⟨hloading, hsame, hregular⟩ := Likeness.module_alike (loadingAlike_loads s.loading)
      (e := ⟨files, file, f⟩) (g := ⟨files, file, g⟩) ⟨rfl, rfl, h, hf⟩
      (s := { stream, session := s }) rfl fun h => h.elim
    have hsame : Grammar.module ⟨files, file, g⟩ { stream, session := s } =
        Grammar.module ⟨files, file, f⟩ { stream, session := s } := hsame
    show ((Grammar.module _ _).1, (Grammar.module _ _).2.session) =
      ((Grammar.module _ _).1, (Grammar.module _ _).2.session) ∧ _
    rw [hsame]
    exact ⟨rfl, hloading, hregular⟩

theorem conclude_loading {α : Type} (file : SourceFile) (found : Except Fault α) (s : Session) :
    (conclude file found s).2.loading = s.loading := by
  cases found <;> rfl

theorem validate_loading (m : Module) (s : Session) : (validate m s).2.loading = s.loading := by
  rw [validate_apply]
  exact conclude_loading _ _ _

theorem checkRead_loading (found : Option Module) (s : Session) :
    (checkRead found s).2.loading = s.loading := by
  cases found with
  | none => rfl
  | some m => exact validate_loading m s

theorem compileWith_alike (h : LoadsAlike files (files.key path :: s.loading) f g)
    (hf : LoadsRegular files (files.key path :: s.loading) f) :
    compileWith files g path text s = compileWith files f path text s ∧
      (compileWith files f path text s).2.loading = s.loading ∧
      ∀ m ∈ (compileWith files f path text s).1, m.Regular := by
  have halike : LoadsAlike files (s.marked files path).loading f g := h
  obtain ⟨hread, hloading, hregular⟩ := readModule_alike (.ofPath path text) halike hf
  have hparse : parseWith files g path text s = parseWith files f path text s := by
    rw [parseWith_apply, parseWith_apply, hread]
  have hparsed : (parseWith files f path text s).2.loading = s.loading := by
    rw [parseWith_apply, conclude_loading]
    show List.tail _ = _
    rw [hloading]
    rfl
  refine ⟨?_, ?_, fun m hm => ?_⟩
  · rw [compileWith_apply, compileWith_apply, hparse]
  · rw [compileWith_apply, checkRead_loading, hparsed]
  · obtain ⟨m', u, types, hparse, hcheck, -⟩ := compileWith_eq_some_iff.1 (Prod.ext hm rfl)
    obtain ⟨t, hread, -⟩ := parseWith_eq_some hparse
    have hchecked := (hregular m' (by rw [hread])).check u.config u.vars u.types
    rwa [hcheck] at hchecked

/-! ## Nested calls -/

/-- Loaders that may be nested deep enough are alike. -/
theorem loadsAlike_iterate (files : FileTree) (bottom bottom' : Loader) {n m : Nat}
    (loading : List (List String)) (hn : files.remaining loading ≤ n)
    (hm : files.remaining loading ≤ m) :
    LoadsAlike files loading ((compileWith files)^[n] bottom) ((compileWith files)^[m] bottom') ∧
      LoadsRegular files loading ((compileWith files)^[n] bottom) := by
  induction n generalizing m loading with
  | zero =>
    have hnone : ∀ {path text}, files.key path ∉ loading → files.read path = .ok text → False := by
      intro path text hkey hread
      have hlt := FileTree.remaining_lt hkey hread
      omega
    exact ⟨fun _ hkey hread => (hnone hkey hread).elim, fun _ hkey hread => (hnone hkey hread).elim⟩
  | succ n ih =>
    have hcall : ∀ {path text s}, s.loading = loading → files.key path ∉ loading →
        files.read path = .ok text →
        (compileWith files)^[m] bottom' path text s =
            (compileWith files)^[n + 1] bottom path text s ∧
          ((compileWith files)^[n + 1] bottom path text s).2.loading = loading ∧
          ∀ k ∈ ((compileWith files)^[n + 1] bottom path text s).1, k.Regular := by
      intro path text s hs hkey hread
      have hlt := FileTree.remaining_lt hkey hread
      obtain ⟨m, rfl⟩ : ∃ k, m = k + 1 := ⟨m - 1, by omega⟩
      obtain ⟨halike, hregular⟩ := ih (m := m) (files.key path :: loading) (by omega) (by omega)
      rw [Function.iterate_succ_apply', Function.iterate_succ_apply', ← hs]
      rw [← hs] at halike hregular
      exact compileWith_alike halike hregular
    exact ⟨fun hs hkey hread => ⟨(hcall hs hkey hread).1, (hcall hs hkey hread).2.1⟩,
      fun hs hkey hread => (hcall hs hkey hread).2.2⟩

theorem compileWithin_eq (files : FileTree) (depth : Nat) :
    compileWithin files depth = (compileWith files)^[depth + 1] fun _ _ => return none := by
  induction depth with
  | zero => rfl
  | succ depth ih => rw [Function.iterate_succ_apply', ← ih, compileWithin]

/-- More nesting than there are files changes nothing. -/
theorem compileWith_iterate (files : FileTree) {n m : Nat} (bottom bottom' : Loader)
    (hn : files.size ≤ n) (hm : files.size ≤ m) (path : Path) (text : String) (s : Session) :
    compileWith files ((compileWith files)^[m] bottom') path text s =
        compileWith files ((compileWith files)^[n] bottom) path text s ∧
      (compileWith files ((compileWith files)^[n] bottom) path text s).2.loading = s.loading ∧
      ∀ k ∈ (compileWith files ((compileWith files)^[n] bottom) path text s).1, k.Regular := by
  have hle := files.remaining_le_size (files.key path :: s.loading)
  obtain ⟨halike, hregular⟩ := loadsAlike_iterate (n := n) (m := m) files bottom bottom'
    (files.key path :: s.loading) (by omega) (by omega)
  exact compileWith_alike halike hregular

/-- **Compiling is a fixed point**, reached from any loader. -/
theorem iterate_eq_compile (files : FileTree) (bottom : Loader) {n : Nat} (hn : files.size < n)
    (path : Path) (text : String) (s : Session) :
    (compileWith files)^[n] bottom path text s = compile files path text s := by
  obtain ⟨n, rfl⟩ : ∃ k, n = k + 1 := ⟨n - 1, by omega⟩
  unfold compile
  rw [compileWithin_eq, Function.iterate_succ_apply', Function.iterate_succ_apply']
  exact (compileWith_iterate files _ bottom (Nat.le_refl _) (by omega) path text s).1

/-- A call ends with the files that were being loaded, and gives a regular module. -/
theorem compile_outcome (files : FileTree) (path : Path) (text : String) (s : Session) :
    (compile files path text s).2.loading = s.loading ∧
      ∀ m ∈ (compile files path text s).1, m.Regular := by
  unfold compile
  rw [compileWithin_eq, Function.iterate_succ_apply']
  exact (compileWith_iterate files _ (fun _ _ => return none) (Nat.le_refl _) (Nat.le_refl _)
    path text s).2

theorem compile_loading (files : FileTree) (path : Path) (text : String) (s : Session) :
    (compile files path text s).2.loading = s.loading :=
  (compile_outcome files path text s).1

theorem compileWith_compile (files : FileTree) : compileWith files (compile files) =
    compile files := by
  funext path text s
  have hmore := iterate_eq_compile files (fun _ _ => return none)
    (n := files.size + 1 + 1) (by omega) path text s
  rw [Function.iterate_succ_apply', ← compileWithin_eq] at hmore
  exact hmore

end Session

end TypedLua
