import TypedLua.Proofs.Session.Runs
import TypedLua.Proofs.Typing.Checked

/-!
# Session.Validated

Modules of a session that are found to be free of faults.  A session is reached by calls from a
fresh one, and its switches may be changed between calls; the modules that calls gave back are at
hand for checking.  All along the session is sound, and the ids in its modules denote, so that a module
that is free of faults is consistent throughout.

Main statement: `validate_consistent`.
-/

namespace TypedLua.Session

open Text

/-- The session is reached from a fresh one by calls, which gave the modules back. -/
inductive Reached : Session → List Module → Prop
  | fresh (config : Config) (output : Option String) : Reached { config, output } []
  | configure {s : Session} {ms : List Module} (config : Config) :
      Reached s ms → Reached { s with config } ms
  | compile {s : Session} {ms : List Module} (files : FileTree) (path : Path) (text : String) :
      Reached s ms →
      Reached (compile files path text s).2 ((compile files path text s).1.toList ++ ms)
  | parse {s : Session} {ms : List Module} (files : FileTree) (path : Path) (text : String) :
      Reached s ms → Reached (parse files path text s).2 ((parse files path text s).1.toList ++ ms)
  | validate {s : Session} {ms : List Module} {m : Module} :
      Reached s ms → m ∈ ms → Reached (validate m s).2 ((validate m s).1.2 :: ms)

/-- A fresh session parses a module. -/
theorem Reached.of_parse {files : FileTree} {path : Path} {text : String} {config : Config}
    {output : Option String} {m : Module} {s : Session}
    (h : Session.parse files path text { config, output } = (some m, s)) : Reached s [m] := by
  have hreached := Reached.parse files path text (.fresh config output)
  rw [h] at hreached
  exact hreached

/-- The session is sound, and the ids in the modules denote. -/
def Holds (w : Arenas) (s : Session) (ms : List Module) : Prop :=
  Session.Sound w s s ∧ ∀ m ∈ ms, Arenas.module.rel w m m

variable {s : Session} {ms : List Module}

/-- Loading keeps ids meaningful. -/
theorem Holds.load {w : Arenas} (h : Holds w s ms) {f : Loader} (hf : sound.Loads f f) (path : Path)
    (text : String) : ∃ v, w ≤ v ∧ Holds v (f path text s).2 ((f path text s).1.toList ++ ms) := by
  obtain ⟨v, hwv, hm, hv⟩ := hf [] w path text text rfl s s h.1
  refine ⟨v, hwv, hv, fun m hmem => ?_⟩
  rcases List.mem_append.1 hmem with hnew | hold
  · rw [Option.mem_toList.1 hnew] at hm
    cases hm with
    | some hm => exact hm
  · exact Arenas.module.mono hwv (h.2 m hold)

/-- So does checking. -/
theorem Holds.validate {w : Arenas} {m : Module} (h : Holds w s ms) (hmem : m ∈ ms) :
    ∃ v, Holds v (validate m s).2 ((validate m s).1.2 :: ms) := by
  obtain ⟨hs, hms⟩ := h
  obtain ⟨v, hwv, ⟨-, hm⟩, hv⟩ := sound_lawful.validate [] (hms m hmem) _ _ hs
  exact ⟨v, hv, List.forall_mem_cons.2 ⟨hm, fun m' hold => Arenas.module.mono hwv (hms m' hold)⟩⟩

/-- Every session that is reached is sound. -/
theorem Reached.holds (h : Reached s ms) : ∃ w, Holds w s ms := by
  induction h with
  | fresh config output =>
    refine ⟨⟨.primitives, {}⟩, ⟨⟨TypeArena.primitives_grounded, ?_⟩, rfl, rfl, rfl⟩, ?_⟩
    · exact fun hv => nomatch hv
    · exact fun m hm => nomatch hm
  | configure config _ ih =>
    obtain ⟨w, hs, hms⟩ := ih
    exact ⟨w, ⟨hs.toSound, rfl, hs.types, hs.vars⟩, hms⟩
  | compile files path text _ ih =>
    obtain ⟨w, h⟩ := ih
    obtain ⟨v, -, hv⟩ := h.load (sound_lawful.compile files) path text
    exact ⟨v, hv⟩
  | parse files path text _ ih =>
    obtain ⟨w, h⟩ := ih
    obtain ⟨v, -, hv⟩ := h.load (sound_lawful.parse files) path text
    exact ⟨v, hv⟩
  | validate _ hmem ih =>
    obtain ⟨w, h⟩ := ih
    exact h.validate hmem

/-- **Validated trees are locally well typed.**  Whatever calls led to the session, every expression
of a module that is found to be free of faults is consistent with the expressions inside it. -/
theorem validate_consistent {s : Session} {ms : List Module} {m : Module} (h : Reached s ms)
    (hm : m ∈ ms) (hvalid : (validate m s).1.1 = true) :
    (validate m s).1.2.Every
      (Expr.Consistent (validate m s).2.types (validate m s).2.vars) := by
  obtain ⟨w, hs, hms⟩ := h.holds
  rw [validate_apply] at hvalid ⊢
  dsimp only at hvalid ⊢
  rw [hs.types, hs.vars] at hvalid ⊢
  cases hcheck : m.check s.config w.vars w.types with
  | mk checked types =>
    obtain ⟨m', found⟩ := checked
    rw [hcheck] at hvalid
    cases found with
    | error f => cases hvalid
    | ok _ => exact moduleCheck_consistent s.config hs.toSound (hms m hm) hcheck

set_option maxRecDepth 4000 in
/-- A module with a generic interface, a variadic function, an exported array, and a table in a
block that becomes an instance of the interface. -/
theorem validate_consistent_boxes :
    let text := "interface Box<T> \x7b value: T \x7d
extern function make(n: number, ...: string): Box<number>
export local xs: number[] = \x7b 1, 2 \x7d
do
  local b: Box<number> = \x7b value = make(xs[1], 'a').value \x7d
end"
    ∃ m s, parse ⟨"/", []⟩ ⟨"boxes.lua"⟩ text {} = (some m, s) ∧ (validate m s).1.1 = true ∧
      (validate m s).1.2.Every
        (Expr.Consistent (validate m s).2.types (validate m s).2.vars) := by
  intro text
  obtain ⟨m, s, hparse, hvalid⟩ : ∃ m s, parse ⟨"/", []⟩ ⟨"boxes.lua"⟩ text {} = (some m, s) ∧
      (validate m s).1.1 = true := exists_of_found (by rw [parse_ofList]; decide +kernel)
  have hreached := Reached.of_parse hparse
  exact ⟨m, s, hparse, hvalid, validate_consistent hreached List.mem_cons_self hvalid⟩

end TypedLua.Session
