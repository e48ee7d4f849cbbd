import TypedLua.Proofs.Tree.Related
import TypedLua.Session.Compile

/-!
# Session.Calls

The calls of a session keep sessions in correspondence, if reading one module and checking one
module do.  Compiling a module compiles the modules that it imports, and those that they import; the
files that are being loaded are known on both sides throughout.

Main statements: `Lawful.compile` and `Lawful.parse`.
-/

namespace TypedLua

open Text Session

theorem Session.validate_apply (m : Module) (s : Session) :
    validate m s =
      let checked := m.check s.config s.vars s.types
      let concluded := conclude checked.1.1.file checked.1.2 { s with types := checked.2 }
      ((concluded.1.isSome, checked.1.1), concluded.2) := rfl

/-- What holds of a loader that finds nothing, and of compiling with a loader if it holds of the
loader, holds of compiling: by induction on how deep calls may still be nested. -/
theorem Session.compile_induct {P : Loader → Prop} (files : FileTree)
    (hnone : P fun _ _ => return none) (hstep : ∀ load, P load → P (compileWith files load)) :
    P (compile files) := by
  have hwithin (depth : Nat) : P (compileWithin files depth) := by
    induction depth with
    | zero => exact hstep _ hnone
    | succ depth ih => exact hstep _ ih
  exact hwithin files.size

/-- Which sessions correspond, while the given files are being loaded. -/
structure SessionLink where
  /-- What is known about the ids of the two sides. -/
  World : Type
  [order : Preorder World]
  types : Link World TypeId TypeId
  vars : Link World VariableId VariableId
  regard : Regard := .all
  rel : List (List String) → World → Session → Session → Prop

namespace SessionLink

attribute [instance] SessionLink.order

variable (S : SessionLink)

/-- Modules correspond if their ids do. -/
abbrev module : Link S.World Module Module := .module S.regard S.types S.vars

/-- Loading texts that go together keeps sessions in correspondence. -/
def Loads (f g : Loader) : Prop :=
  ∀ loading w path text text', S.regard.text text text' →
    InStep (S.rel loading) w S.module.option (f path text) (g path text')

/-- The parts of a call keep sessions in correspondence. -/
structure Lawful : Prop where
  report {loading w s t a b} {file file' : SourceFile} (cause : Cause) : file.Agree S.regard file' →
    S.regard.place a b → S.rel loading w s t →
    S.rel loading w (s.report file (Fault.mk a cause).diagnostic)
      (t.report file' (Fault.mk b cause).diagnostic)
  mark {loading w s t} (key : List String) : S.rel loading w s t →
    S.rel (key :: loading) w { s with loading := key :: s.loading }
      { t with loading := key :: t.loading }
  unmark {key loading w s t} : S.rel (key :: loading) w s t →
    S.rel loading w { s with loading := s.loading.tail } { t with loading := t.loading.tail }
  read {loading w f g} {file file' : SourceFile} (files : FileTree) : S.Loads f g →
    file.Agree S.regard file' → InStep (S.rel loading) w (S.module.result S.regard.place)
      (readModule files f file) (readModule files g file')
  check {loading w s t m n} : S.module.rel w m n → S.rel loading w s t →
    ∃ v, w ≤ v ∧ (S.module.pair (Link.same.result S.regard.place)).rel v (m.check s.config s.vars s.types).1
        (n.check t.config t.vars t.types).1 ∧
      S.rel loading v { s with types := (m.check s.config s.vars s.types).2 }
        { t with types := (n.check t.config t.vars t.types).2 }

namespace Lawful

variable {S} (hS : S.Lawful) {loading : List (List String)} {w : S.World}

include hS

theorem conclude {α β : Type} {R : Link S.World α β} {file file' : SourceFile}
    (hfile : file.Agree S.regard file') {x : Except Fault α} {y : Except Fault β}
    (h : (R.result S.regard.place).rel w x y) :
    InStep (S.rel loading) w R.option (Session.conclude file x) (Session.conclude file' y) := by
  intro s t hst
  cases h with
  | ok h => exact ⟨w, le_refl w, .some h, hst⟩
  | error cause hab => exact ⟨w, le_refl w, .none, hS.report cause hfile hab hst⟩

/-- Reading modules corresponds if loading those that they import does. -/
theorem parseWith (files : FileTree) {f g : Loader} (h : S.Loads f g) :
    S.Loads (Session.parseWith files f) (Session.parseWith files g) := by
  intro loading w path text text' htext s t hst
  have hfile : (SourceFile.ofPath path text).Agree S.regard (.ofPath path text') :=
    ⟨rfl, rfl, rfl, htext⟩
  obtain ⟨v, hwv, hm, hv⟩ := hS.read files h hfile _ _ (hS.mark (files.key path) hst)
  obtain ⟨u, hvu, ho, hu⟩ := hS.conclude hfile hm _ _ (hS.unmark hv)
  exact ⟨u, le_trans hwv hvu, ho, hu⟩

/-- Checking modules that correspond keeps sessions in correspondence. -/
theorem validate (loading : List (List String)) {m n : Module} (hmn : S.module.rel w m n) :
    InStep (S.rel loading) w (Link.same.pair S.module) (Session.validate m)
      (Session.validate n) := by
  intro s t hst
  obtain ⟨v, hwv, ⟨hmn', hfound⟩, hv⟩ := hS.check hmn hst
  rw [validate_apply, validate_apply]
  dsimp only
  generalize m.check s.config s.vars s.types = x at hmn' hfound hv ⊢
  generalize n.check t.config t.vars t.types = y at hmn' hfound hv ⊢
  obtain ⟨u, hvu, ho, hu⟩ := hS.conclude (Module.Agree.file hmn') hfound _ _ hv
  exact ⟨u, le_trans hwv hvu, ⟨Link.isSome_eq ho, S.module.mono hvu hmn'⟩, hu⟩

theorem compileWith (files : FileTree) {f g : Loader} (h : S.Loads f g) :
    S.Loads (Session.compileWith files f) (Session.compileWith files g) := by
  intro loading w path text text' htext
  refine (hS.parseWith files h loading w path text text' htext).bind fun v m n _ hmn => ?_
  cases hmn with
  | none => exact .pure .none
  | some hmn =>
    refine (hS.validate loading hmn).bind ?_
    rintro u ⟨valid, m'⟩ ⟨_, n'⟩ _ ⟨rfl, hmn'⟩
    refine .pure ?_
    cases valid with
    | true => exact .some hmn'
    | false => exact .none

/-- **Compiling keeps sessions in correspondence.** -/
theorem compile (files : FileTree) : S.Loads (Session.compile files) (Session.compile files) :=
  compile_induct files (P := fun f => S.Loads f f) (fun _ _ _ _ _ _ => .pure .none)
    fun _ => hS.compileWith files

/-- **So does parsing.** -/
theorem parse (files : FileTree) : S.Loads (Session.parse files) (Session.parse files) :=
  hS.parseWith files (hS.compile files)

end Lawful

end SessionLink

end TypedLua
