import TypedLua.Proofs.Grammar.Boundaries
import TypedLua.Proofs.Tree.Height

/-!
# Grammar.Height

How deep the trees are that can be read with a given room.  An expression inside another leaves room
for one construct less, and so does every suffix; but suffixes may follow what was read inside, so
that the bound for expressions is quadratic in the room.  A nested block takes two constructs.

Main statements: `low_forms` for expressions and `module_shallow` for modules.
-/

namespace TypedLua.Grammar

open Text
open TypedLua.Parser (bind_eq_ok)

variable {C : Course} {env : ParserEnv} {s : ParserState} {n : Nat}

/-! ## Expressions -/

/-- Each way to form an expression makes it at most one higher. -/
theorem low_forms (hC : C.Allows (Parser.identifier >>= fun x => resolve x.1 x.2)) :
    C.Forms fun n _ e _ => e.height ≤ n where
  mono hmn he := Nat.le_trans he hmn
  depth _ _ he := he
  name env s hs := by
    refine (hC env s hs).and_run.imp ?_ fun _ _ hf => hf
    rintro e t ⟨⟨hst, -⟩, hrun⟩
    obtain ⟨x, u, -, hresolve⟩ := bind_eq_ok.1 hrun
    obtain ⟨-, ⟨id, type, rfl⟩ | ⟨type, rfl⟩⟩ := (Course.resolve_ends _ _).ok hresolve
    · exact ⟨hst, Nat.le_refl 1⟩
    · exact ⟨hst, Nat.le_refl 1⟩
  literal _ := ⟨Nat.le_refl 1, fun _ => Nat.le_refl 1, fun _ => Nat.le_refl 1, fun _ => Nat.le_refl 1⟩
  group _ he _ := Nat.succ_le_succ he
  entry _ he _ := Nat.succ_le_succ he
  member he _ := Nat.succ_le_succ he
  index _ he _ _ hkey _ := Nat.succ_le_succ (Nat.max_le.2 ⟨he, hkey⟩)
  call _ he _ hes _ := Nat.succ_le_succ (Nat.max_le.2
    ⟨he, Expr.heightAll_le_iff.2 (hes.forall fun _ _ _ _ hd _ => hd.prop)⟩)
  constructor _ hes _ :=
    Nat.succ_le_succ (Expr.heightAll_le_iff.2 (hes.forall fun _ _ _ _ hd _ => hd.prop))

/-- Expressions are at most so high. -/
def low (n : Nat) : Trait Expr := ⟨fun _ e _ => e.height ≤ n, fun _ _ h => h⟩

/-! ## Statements -/

/-- How deep a statement is, and where the modules that it imports are from. -/
structure Fits (env : ParserEnv) (n k : Nat) (m : Stmt) : Prop where
  expressions : ∀ e ∈ m.expressions, e.height ≤ n
  /-- At most so many blocks stand one inside the other. -/
  nesting : m.nesting ≤ k
  /-- Imported modules were loaded, or are imported by one that was. -/
  imported : ∀ source ∈ m.imported, ∃ path text loaded a b,
    env.load path text a = (some loaded, b) ∧ source ∈ loaded :: loaded.imported

section

variable {t : ParserState} {m : Stmt} {k : Nat}

theorem fits_of_expressions {e : Expr} (he : e.height ≤ n) (hm : m.expressions = [e])
    (hnesting : m.nesting = 0) (himported : m.imported = []) : Fits env n k m where
  expressions d hd := by
    rw [hm, List.mem_singleton] at hd
    rwa [hd]
  nesting := hnesting ▸ Nat.zero_le k
  imported source h := by
    rw [himported] at h
    cases h

theorem height_of_takesFrom {source : Module} {scopes scopes' : ScopeStack}
    {names : List (String × Span)} {es : List Expr}
    (h : scopes.TakesFrom source names es scopes') : ∀ e ∈ es, e.height = 1 := by
  induction h with
  | nil => exact nofun
  | takesVariable _ _ ih | takesType _ _ _ ih => exact List.forall_mem_cons.2 ⟨rfl, ih⟩

/-- A statement fits if its expressions are low. -/
theorem EffectOf.fits (h : EffectOf (low n) env s m t) (hn : 1 ≤ n) : Fits env n k m := by
  cases h with
  | @definition name tag => exact fits_of_expressions (e := .typeAlias name tag) hn rfl rfl rfl
  | @exportedDefinition name tag =>
    exact fits_of_expressions (e := .typeAlias name tag) hn rfl rfl rfl
  | locals _ hvalues | exportedLocals _ hvalues => exact ⟨hvalues, Nat.zero_le k, nofun⟩
  | externVariable => exact ⟨nofun, Nat.zero_le k, nofun⟩
  | @externFunction head => exact fits_of_expressions (e := .prototype head) hn rfl rfl rfl
  | call _ _ he => exact fits_of_expressions he rfl rfl rfl
  | @imports _ _ _ _ source _ _ _ _ _ _ _ hload _ htakes =>
    refine ⟨fun e he => ?_, Nat.zero_le k, fun found hfound => ⟨_, _, source, _, _, hload, hfound⟩⟩
    rw [height_of_takesFrom htakes e he]
    exact hn

end

/-! ## Modules -/

/-- The statements of open blocks fit, where one more block may stand in a block than in the one
inside it. -/
def AllFit (env : ParserEnv) (n : Nat) : Nat → List (List Stmt) → Prop
  | _, [] => True
  | k, body :: blocks => (∀ m ∈ body, Fits env n k m) ∧ AllFit env n (k + 1) blocks

theorem fits_block {k : Nat} {inner : List Stmt} {scope : Scope} {span : Span}
    (h : ∀ m ∈ inner, Fits env n k m) : Fits env n (k + 1) (.block ⟨inner.reverse, scope, span⟩) := by
  refine ⟨fun e he => ?_, ?_, fun source hsource => ?_⟩
  · obtain ⟨m, hm, he⟩ := Stmt.mem_expressionsOf.1 (show e ∈ Stmt.expressionsOf _ from he)
    exact (h m (List.mem_reverse.1 hm)).expressions e he
  · show Stmt.nestingOf inner.reverse + 1 ≤ k + 1
    have hnesting : Stmt.nestingOf inner.reverse ≤ k :=
      Stmt.nestingOf_le_iff.2 fun m hm => (h m (List.mem_reverse.1 hm)).nesting
    omega
  · obtain ⟨m, hm, hsource⟩ :=
      Stmt.mem_importedOf.1 (show source ∈ Stmt.importedOf _ from hsource)
    exact (h m (List.mem_reverse.1 hm)).imported source hsource

theorem bound_mono {m n : Nat} (h : m ≤ n) : Course.bound m ≤ Course.bound n :=
  Nat.mul_le_mul h (Nat.succ_le_succ h)

theorem fits_of_statementWithin {k room : Nat} {m : Stmt} {t : ParserState}
    (hkind : s.stream.current.kind ≠ .kwDo) (h : statementWithin room env s = (.ok m, t)) :
    Fits env (Course.bound room) k m := by
  have hnames := fun env s =>
    (resolve_yields Course.free_wide.blames env s).imp fun _ _ _ _ => True.intro
  have hlow : ∀ r < room, GivesExpr .free (low (Course.bound room)) r := fun r hr =>
    (low_forms hnames).gives fun _ _ _ he => Nat.le_trans he (bound_mono hr)
  have hachieves := statementWithin_achieves Course.free_wide (Course.free_loads env) hlow .intro hkind
  obtain ⟨-, u, heffect, -⟩ := hachieves.ok h
  cases room with
  | zero =>
    unfold statementWithin at h
    cases h
  | succ room =>
    have hbound := Course.bound_succ room
    exact heffect.fits (by omega)

/-- Each open block takes up two levels of nesting. -/
theorem Boundary.room_eq {start : ParserState} {room : Nat} {blocks : List (List Stmt)}
    (h : Boundary env start room blocks s) :
    room + 2 * blocks.length = nestingLimit - start.depth + 2 := by
  induction h with
  | start => rfl
  | semicolon _ _ ih => exact ih
  | statement _ _ _ ih => exact ih
  | enter _ _ _ ih | leave _ _ ih =>
    simp only [List.length_cons] at ih ⊢
    omega

/-- All statements so far fit below the limit. -/
theorem Boundary.allFit {start : ParserState} {room : Nat} {blocks : List (List Stmt)}
    (h : Boundary env start room blocks s) :
    AllFit env (Course.bound nestingLimit) (room / 2) blocks := by
  induction h with
  | start => exact ⟨nofun, .intro⟩
  | semicolon _ _ ih => exact ih
  | @statement room body blocks s t m hs hkind hrun ih =>
    have hroom : room ≤ nestingLimit := by
      have heq := hs.room_eq
      simp only [List.length_cons] at heq
      omega
    have hm := fits_of_statementWithin (k := room / 2) hkind hrun
    have hlow := bound_mono hroom
    refine ⟨List.forall_mem_cons.2 ⟨?_, ih.1⟩, ih.2⟩
    exact ⟨fun e he => Nat.le_trans (hm.expressions e he) hlow, hm.nesting, hm.imported⟩
  | @enter room body blocks s _ _ _ ih =>
    rw [show (room + 2) / 2 = room / 2 + 1 from Nat.add_div_right room (by decide)] at ih
    exact ⟨nofun, ih⟩
  | @leave room inner body blocks s span _ _ ih =>
    rw [show (room + 2) / 2 = room / 2 + 1 from Nat.add_div_right room (by decide)]
    exact ⟨List.forall_mem_cons.2 ⟨fits_block ih.1, ih.2.1⟩, ih.2.2⟩

/-- **A module that is read is shallow**, and so are those that it imports. -/
theorem module_shallow {m : Module} {t : ParserState} (h : module env s = (.ok m, t)) :
    m.Shallow (nestingLimit * (nestingLimit + 1)) nestingLimit ∧
      ∀ source ∈ m.imported, ∃ path text loaded a b,
        env.load path text a = (some loaded, b) ∧ source ∈ loaded :: loaded.imported := by
  obtain ⟨room, u, hu, -⟩ := module_ends.ok h
  obtain ⟨file, ⟨body, scope, span⟩⟩ := m
  have hroom := hu.room_eq
  have hfits : ∀ m' ∈ body, Fits env _ (room / 2) m' := fun m' hm' =>
    hu.allFit.1 m' (List.mem_reverse.2 hm')
  refine ⟨⟨fun e he => ?_, ?_⟩, fun source hsource => ?_⟩
  · obtain ⟨m', hm', he⟩ := Stmt.mem_expressionsOf.1 (show e ∈ Stmt.expressionsOf _ from he)
    exact (hfits m' hm').expressions e he
  · have hnesting : Stmt.nestingOf body ≤ room / 2 :=
      Stmt.nestingOf_le_iff.2 fun m' hm' => (hfits m' hm').nesting
    show Stmt.nestingOf body ≤ nestingLimit
    simp only [List.length_cons, List.length_nil] at hroom
    omega
  · obtain ⟨m', hm', hsource⟩ :=
      Stmt.mem_importedOf.1 (show source ∈ Stmt.importedOf _ from hsource)
    exact (hfits m' hm').imported source hsource

end TypedLua.Grammar
