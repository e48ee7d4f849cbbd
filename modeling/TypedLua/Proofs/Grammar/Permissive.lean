import TypedLua.Proofs.Grammar.Likewise

/-!
# Grammar.Permissive

Reading with more switches on.  A switch allows what is a fault without it and is asked nowhere
else, so whatever is read without it is read with it, in the same way.

Main statement: `module_persists`.
-/

namespace TypedLua

open Text TypedLua.Parser

/-- What the first switches allow, the second ones allow. -/
structure Config.Allows (c c' : Config) : Prop where
  /-- Declarations with fewer values than variables. -/
  imbalancedLocals : c.imbalancedLocals = true → c'.imbalancedLocals = true
  typelessFunctions : c.typelessFunctions = true → c'.typelessFunctions = true

/-- What is loaded with some switches is loaded alike with the given ones, if these allow it. -/
def LoadPersists (c : Config) (f g : Path → String → StateM Session (Option Module)) : Prop :=
  ∀ path text (s : Session) m t, s.config.Allows c → f path text s = (some m, t) →
    t.config = s.config ∧ g path text (s.under c) = (some m, t.under c) ∧ m.Regular

/-- The same files and the same text are there, and loading persists. -/
structure ParserEnv.Persists (c : Config) (e e' : ParserEnv) : Prop where
  files : e'.files = e.files
  file : e'.file = e.file
  load : LoadPersists c e.load e'.load

variable {c c' : Config}

/-- The first parser has the one switches and may fail, the second one has the others. -/
def switched (hc : c.Allows c') : Likeness where
  Keeps d _ _ := d = c
  switch _ := c'
  env e e' := e.Persists c' e'
  lenient := True
  typeless {d _ _} hd := by
    subst hd
    cases hoff : d.typelessFunctions with
    | false => exact .inl ⟨.intro, rfl⟩
    | true => exact .inr (hc.typelessFunctions hoff).symm

/-- Switching more on keeps what the root scope and varargs need. -/
theorem switched_loads (hc : c.Allows c') : (switched hc).Loads where
  rescoped _ hd := hd
  files henv := henv.files
  file henv := henv.file
  load {e f path text _ s} henv hs _ _ := by
    cases hload : e.load path text s with
    | mk m u =>
      cases m with
      | none =>
        -- a module that could not be loaded is a fault of the first side
        exact .inl ⟨.intro, rfl⟩
      | some m =>
        have hs : s.config = c := hs
        obtain ⟨hconfig, hload', hregular⟩ := henv.load path text s m u (hs ▸ hc) hload
        refine .inr ⟨hconfig.trans hs, hload', ?_⟩
        rintro _ ⟨⟩
        exact hregular

/-- **What is read persists** when more is switched on. -/
theorem module_persists (hc : c.Allows c') {e e' : ParserEnv} (henv : e.Persists c' e')
    {s t : ParserState} {m : Module} (hs : s.session.config = c)
    (hrun : Grammar.module e s = (.ok m, t)) :
    t.session.config = c ∧ Grammar.module e' (s.under c') = (.ok m, t.under c') ∧ m.Regular := by
  obtain ⟨hconfig, hread, hregular⟩ :=
    Likeness.module_alike (switched_loads hc) henv hs fun _ => ⟨m, by rw [hrun]⟩
  rw [hrun] at hconfig hread hregular
  exact ⟨hconfig, hread, hregular m rfl⟩

end TypedLua
