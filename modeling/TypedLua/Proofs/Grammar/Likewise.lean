import Mathlib.Order.Basic
import TypedLua.Proofs.Grammar.Module
import TypedLua.Proofs.Tree.Alike

/-!
# Grammar.Likewise

Reading twice from one state.  Two parsers whose states are the same but for the switches, and that
load the same modules, read the same.  What holds of the switches, of the modules being loaded and
of the scopes is a parameter; so are the switches of the second parser and what both may consult.

Main statements: `Likeness.alike_full` and `Likeness.module_alike`.
-/

namespace TypedLua

open Text TypedLua.Parser

/-- The session with other switches. -/
def Session.under (c : Config) (s : Session) : Session := { s with config := c }

/-- The state with other switches. -/
def ParserState.under (c : Config) (s : ParserState) : ParserState :=
  { s with session := s.session.under c }

/-- How the states of two parsers that read the same differ, and what stays. -/
structure Likeness where
  /-- What holds of the switches, of the modules being loaded and of the scopes. -/
  Keeps : Config → List (List String) → ScopeStack → Prop
  switch : Config → Config
  env : ParserEnv → ParserEnv → Prop
  /-- The first parser may fail where the second one does not. -/
  lenient : Prop
  /-- The switch that is asked while reading is the same, or it is off where that is excused. -/
  typeless {c l a} : Keeps c l a →
    lenient ∧ c.typelessFunctions = false ∨ c.typelessFunctions = (switch c).typelessFunctions

namespace Likeness

/-- The states are the same, but for the switches. -/
def alike (L : Likeness) : Correspondence where
  World := Unit
  order := PUnit.instLinearOrder.toPreorder
  types := .same
  vars := .same
  ordered _ _ := True
  ordered_mono _ _ _ := .intro
  state _ s t := L.Keeps s.session.config s.session.loading s.scopes ∧
    t = s.under (L.switch s.session.config)
  env := L.env
  lenient := L.lenient
  rooted := False

variable {L : Likeness}

theorem alike_passes (kind : Token.Kind) : L.alike.Passes kind := by
  intro w s t h _ _
  obtain ⟨hs, rfl⟩ := h
  exact ⟨hs, rfl⟩

/-- Shapes that are alike are interned alike. -/
theorem alike_intern {w : L.alike.World} {s t : ParserState} {a b : Shape}
    (h : L.alike.state w s t) (hab : L.alike.types.shape.rel w a b) :
    L.alike.Interns w s t a b := by
  obtain rfl := Shape.Rel.eq hab fun _ _ h => h
  obtain ⟨hs, rfl⟩ := h
  exact ⟨w, le_refl w, rfl, hs, rfl⟩

theorem alike_legible : L.alike.Legible where
  current h := by
    rw [h.2]
    exact ⟨rfl, rfl, rfl⟩
  peek count h _ := by
    rw [h.2]
    exact .refl (fun a => (rfl : a.kind = a.kind)) fun _ => rfl
  length h := by rw [h.2]; rfl
  spanned h hab := by
    cases hab
    rw [h.2]
    rfl
  next h _ := by
    rw [h.2]
    exact .refl (fun _ => rfl) fun _ => rfl
  passes _ := alike_passes _
  depth h := by rw [h.2]; rfl
  typeless h := by
    rw [h.2]
    exact L.typeless h.1
  scopes h := Link.scopes_same.2 (by rw [h.2]; rfl)
  deepened n h := ⟨h.1, by rw [h.2]; rfl⟩
  primitive _ _ := rfl
  void _ hxy := by rw [show _ = _ from hxy]
  vararg h hxy := by rw [show _ = _ from hxy, h.2]; rfl
  checked _ _ _ := .intro
  denotes h _ := h.elim
  typeOf h hxy := by rw [show _ = _ from hxy, h.2]; rfl
  nameOf h hxy := by rw [show _ = _ from hxy, h.2]; rfl
  intern h hab _ := alike_intern h hab
  alloc {w s t a b} h hab := by
    obtain rfl : a = b := Variable.Rel.eq hab
    obtain ⟨hs, rfl⟩ := h
    exact ⟨w, le_refl w, rfl, hs, rfl⟩

theorem alike_instantiates : L.alike.Instantiates where
  passes := alike_passes
  shapes {w s t x y} h hxy := by
    obtain rfl : x = y := hxy
    rw [h.2]
    show Option.Rel _ (s.session.types.get? x) (s.session.types.get? x)
    cases s.session.types.get? x with
    | none => exact .none
    | some shape => exact .some (Shape.Rel.refl fun _ _ => rfl)
  instantiated {w s t x y xs ys} h hxy hargs := by
    obtain rfl : x = y := hxy
    obtain rfl := Link.list_same.1 hargs
    obtain ⟨hs, rfl⟩ := h
    exact ⟨w, le_refl w, Link.option_same.2 rfl, hs, rfl⟩

theorem alike_readsNamed : L.alike.ReadsNamed := alike_legible.readsNamed alike_instantiates

/-- Modules are loaded alike. -/
structure Loads (L : Likeness) : Prop where
  /-- What is kept does not depend on the scopes. -/
  rescoped {c l a} (b : ScopeStack) : L.Keeps c l a → L.Keeps c l b
  files {e f} : L.env e f → f.files = e.files
  file {e f} : L.env e f → f.file = e.file
  /-- Loading is the same, or it fails where that is excused. -/
  load {e f path text a} {s : Session} : L.env e f → L.Keeps s.config s.loading a →
    e.files.key path ∉ s.loading → e.files.read path = .ok text →
    L.lenient ∧ (e.load path text s).1 = none ∨
      L.Keeps (e.load path text s).2.config (e.load path text s).2.loading a ∧
        f.load path text (s.under (L.switch s.config)) = ((e.load path text s).1,
          (e.load path text s).2.under (L.switch (e.load path text s).2.config)) ∧
        ∀ m ∈ (e.load path text s).1, m.Regular

/-- Readings in sessions that are alike correspond. -/
theorem alike_full (h : L.Loads) : L.alike.Full where
  toLegible := alike_legible
  modified {w s t f g} hst _ _ hfg := by
    obtain rfl : f = g := funext fun x => Link.scope_same.1 (hfg x x (Link.scope_same.2 rfl))
    exact ⟨h.rescoped _ hst.1, by rw [hst.2]; rfl⟩
  rescoped hst hab := by
    obtain rfl := Link.scopes_same.1 hab
    exact ⟨h.rescoped _ hst.1, by rw [hst.2]; rfl⟩
  sameFile henv := by
    rw [h.file henv]
    exact ⟨rfl, rfl, rfl, rfl⟩
  interned hst hab _ := alike_intern hst hab
  parameterised := .intro
  files henv := (h.files henv).symm
  loading hst := by rw [hst.2]; rfl
  load {w s t e f path text} henv hst hkey hread := by
    obtain ⟨hs, rfl⟩ := hst
    rcases h.load henv hs hkey hread with hfailed | ⟨hkeeps, hload, hregular⟩
    · exact .inl hfailed
    · rw [show f.load path text (s.under (L.switch s.session.config)).session = _ from hload]
      refine .inr ⟨w, le_refl w, ?_, hkeeps, rfl⟩
      cases hm : (e.load path text s.session).1 with
      | none => exact .none
      | some m => exact .some (hregular m hm)
  named := alike_readsNamed

/-- **A module is read alike in sessions that are alike.** -/
theorem module_alike (h : L.Loads) {e g : ParserEnv} (henv : L.env e g) {s : ParserState}
    (hs : L.Keeps s.session.config s.session.loading s.scopes)
    (hcounts : L.lenient → ∃ m, (Grammar.module e s).1 = .ok m) :
    let run := Grammar.module e s
    L.Keeps run.2.session.config run.2.session.loading run.2.scopes ∧
      Grammar.module g (s.under (L.switch s.session.config)) =
        (run.1, run.2.under (L.switch run.2.session.config)) ∧ ∀ m, run.1 = .ok m → m.Regular := by
  intro run
  obtain ⟨_, -, hfound, ht⟩ :=
    ((alike_full h).module (w := ())).meet (t := s.under _) henv ⟨hs, rfl⟩ hcounts
  have hfound : L.alike.FoundRel (Module.Agree .all Eq Eq) run.1 (Grammar.module g (s.under _)).1 :=
    hfound
  refine ⟨ht.1, Prod.ext ?_ ht.2, fun m hm => ?_⟩
  · generalize (Grammar.module g _).1 = r, run.1 = r' at hfound ⊢
    cases hfound with
    | ok hmn => rw [hmn.eq]
    | error cause hab => rw [show _ = _ from hab]
  · rw [hm] at hfound
    generalize (Grammar.module g _).1 = r at hfound
    cases hfound with
    | ok hmn =>
      obtain rfl := hmn.eq
      exact hmn

end Likeness

end TypedLua
