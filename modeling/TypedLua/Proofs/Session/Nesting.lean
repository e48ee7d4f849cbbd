import TypedLua.Proofs.Grammar.Refused
import TypedLua.Proofs.Session.Runs

/-!
# Session.Nesting

How deep the types of a session are nested, if names mean primitives.  What is nested in a type that
can be read is bounded by the room for open constructs, but for what is not counted; and an
annotation that is nested deeper is refused for that reason.

Main statement: `Session.parse_bounded_types`.
-/

namespace TypedLua

open Text
open Token (Kind)

namespace Session

variable {files : FileTree} {path : Path} {text : String} {config : Config}
  {output : Option String} {m : Module} {s : Session}

/-- The types of a text without definitions are allowed. -/
theorem allowed_of_parse (hplain : Grammar.Plain (Token.words text))
    (hparse : parse files path text { config, output } = (some m, s)) {id : TypeId}
    (hid : s.types.Holds id) :
    (∃ p, s.types.unfold id = .ofPrimitive p) ∨ Grammar.Allowed (s.types.unfold id) := by
  obtain ⟨u, hread, rfl⟩ := parseWith_eq_some hparse
  obtain ⟨stream, v, hstream, hmodule, rfl⟩ := readModule_eq_ok hread
  obtain ⟨room, last, hlast, -, -, -, hsession⟩ := Grammar.module_ends.ok hmodule
  have hadds := hlast.adds ⟨TypeArena.primitives_grounded, nofun⟩
    (Token.Stream.words_ofSource hstream ▸ hplain)
  show (∃ p, v.session.types.unfold id = _) ∨ Grammar.Allowed (v.session.types.unfold id)
  have hid : v.session.types.Holds id := hid
  rw [hsession] at hid ⊢
  rcases hadds.added id hid with hold | hnew
  · left
    -- all types of a fresh session are primitives
    obtain ⟨shape, hshape⟩ := TypeArena.Holds.get? hold
    obtain ⟨p, -, rfl⟩ := List.mem_map.1 (List.mem_of_getElem? hshape)
    refine ⟨p, ?_⟩
    rw [TypeArena.primitives_grounded.unfold_extends hadds.types hold]
    exact TypeArena.primitives_grounded.unfold_eq hshape
  · exact .inr hnew

/-- A type that is nested too deep is refused. -/
theorem parse_refused {e : WrittenType} {name : String} {w : Word} {ws : List Word}
    (he : Grammar.DeepBefore (Grammar.rootContext config) e w)
    (h : (Kind.kwLocal.word :: (Grammar.declarationWords name e ++ w :: ws)).map some <+:
      Token.contents text) :
    ∃ s f, parse files path text { config, output } = (none, s) ∧
      s.reported.getLast? = some (Fault.diagnostic f) ∧ Grammar.TooDeep f := by
  obtain ⟨stream, hstream, hahead⟩ := Token.Stream.exists_ahead h
  let start : ParserState := { stream, session := ({ config, output } : Session).marked files path }
  obtain ⟨f, t, hrun, hf⟩ : ∃ f t, Grammar.module ⟨files, .ofPath path text, compile files⟩ start =
      (.error f, t) ∧ Grammar.TooDeep f :=
    Grammar.exists_of_refused (Grammar.refused_module rfl he hahead)
  refine ⟨_, f, parseWith_of_fault (readModule_of_run hstream hrun), ?_, hf⟩
  exact List.getLast?_concat

/-- **Types are bounded** where no types are defined and nothing is imported: every type of the
session is nested no deeper than constructs may be open, but for functions on the way to a lone
function that they return, arrays of what is nested further, and the variadic argument of a function
that is declared.  An annotation that is nested deeper is refused for it wherever it is read, and so
is a module that starts with the declaration of a variable of this type. -/
theorem parse_bounded_types (files : FileTree) (path : Path) (text : String) (config : Config)
    (output : Option String) :
    (∀ m s, Grammar.Plain (Token.words text) →
      parse files path text { config, output } = (some m, s) →
      ∀ id, s.types.Holds id → (s.types.unfold id).depth ≤
        nestingLimit + (s.types.unfold id).uncounted +
          if (s.types.unfold id).isVariadic then 1 else 0) ∧
    (∀ env (p : ParserState) Γ e w ws room, p.Basic → p.Knows Γ → Grammar.DeepBefore Γ e w →
      p.stream.Ahead (e.spelling ++ w :: ws) → room ≤ nestingLimit →
      ∃ f q, Grammar.typeWithin room env p = (.error f, q) ∧
        f.cause.message = "maximum nesting depth (64) exceeded in type") ∧
    ∀ name e w ws, Grammar.DeepBefore (Grammar.rootContext config) e w →
      (Kind.kwLocal.word :: (Grammar.declarationWords name e ++ w :: ws)).map some <+:
        Token.contents text →
      ∃ s d, parse files path text { config, output } = (none, s) ∧
        s.reported.getLast? = some d ∧
        d.message = "maximum nesting depth (64) exceeded in type" := by
  have hmessage : ∀ {f}, Grammar.TooDeep f →
      f.cause.message = "maximum nesting depth (64) exceeded in type" := by
    intro f hf
    rw [show f.cause = _ from hf]
    rfl
  refine ⟨fun m s hplain hparse id hid => ?_, ?_, ?_⟩
  · rcases allowed_of_parse hplain hparse hid with ⟨p, hprimitive⟩ | hallowed
    · rw [hprimitive]
      exact Nat.zero_le _
    · exact hallowed.depth_le
  · intro env p Γ e w ws room hbasic hknows he hahead hroom
    obtain ⟨f, q, hrun, hf⟩ : ∃ f q, Grammar.typeWithin room env p = (.error f, q) ∧
        Grammar.TooDeep f :=
      Grammar.exists_of_refused (Grammar.refused_type hroom hbasic hknows he hahead)
    exact ⟨f, q, hrun, hmessage hf⟩
  · intro name e w ws he hwords
    obtain ⟨s, f, hparse, hreported, hf⟩ := parse_refused he hwords
    exact ⟨s, f.diagnostic, hparse, hreported, hmessage hf⟩

set_option maxRecDepth 4000 in
/-- Arrays, a table, a variadic argument and a function that is returned: two layers on the longest
path are not counted.  One array suffix more than constructs may be open is too many. -/
theorem parse_bounded_types_mixed :
    let Γ := Grammar.rootContext {}
    let nested := WrittenType.array^[65] (.named "number")
    let text := "extern f: (number[], ...string) => () => \x7b a: any, b?: void; \x7d[]"
    let text' := "local x: number" ++ String.join (List.replicate 65 "[]")
    (∃ m s, parse ⟨"/", []⟩ ⟨"main.lua"⟩ text {} = (some m, s) ∧
      (s.types.unfold ⟨12⟩).depth = 4 ∧ (s.types.unfold ⟨12⟩).uncounted = 2 ∧
      ∀ id, s.types.Holds id → (s.types.unfold id).depth ≤
        nestingLimit + (s.types.unfold id).uncounted +
          if (s.types.unfold id).isVariadic then 1 else 0) ∧
    Grammar.DeepBefore Γ nested Kind.eof.word ∧
    (∀ env stream, stream.Ahead (nested.spelling ++ [Kind.eof.word]) → ∃ f q,
      Grammar.typeWithin 63 env (Grammar.begun { stream, session := {} }) = (.error f, q) ∧
      f.cause.message = "maximum nesting depth (64) exceeded in type") ∧
    ∃ s d, parse ⟨"/", []⟩ ⟨"main.lua"⟩ text' {} = (none, s) ∧ s.reported.getLast? = some d ∧
      d.message = "maximum nesting depth (64) exceeded in type" := by
  intro Γ nested text text'
  have hdeep : Grammar.DeepBefore Γ nested Kind.eof.word := by
    have hproper : ∀ n, (WrittenType.array^[n] (.named "number")).Proper Γ ∧
        (WrittenType.array^[n] (.named "number")).isBare = false := by
      intro n
      induction n with
      | zero => exact ⟨.named rfl, rfl⟩
      | succ n ih =>
        rw [Function.iterate_succ_apply']
        exact ⟨.array ih.1 ih.2, rfl⟩
    refine ⟨(hproper 65).1, ⟨by decide, by decide, fun _ => rfl, fun _ => by decide⟩, by decide, ?_⟩
    decide +kernel
  refine ⟨?_, hdeep, fun env stream hahead => ?_, ?_⟩
  · obtain ⟨m, s, hparse, hdepth, huncounted⟩ : ∃ m s,
        parse ⟨"/", []⟩ ⟨"main.lua"⟩ text {} = (some m, s) ∧
          (s.types.unfold ⟨12⟩).depth = 4 ∧ (s.types.unfold ⟨12⟩).uncounted = 2 :=
      exists_of_found (by rw [parse_ofList]; decide +kernel)
    refine ⟨m, s, hparse, hdepth, huncounted, ?_⟩
    refine (parse_bounded_types ⟨"/", []⟩ ⟨"main.lua"⟩ text {} (some "")).1 m s ?_ hparse
    unfold Grammar.Plain
    decide +kernel
  · exact (parse_bounded_types ⟨"/", []⟩ ⟨"main.lua"⟩ text {} (some "")).2.1 env _ Γ nested
      Kind.eof.word [] 63 (Grammar.begun_basic stream {} rfl) (Grammar.begun_knows stream {} rfl)
      hdeep hahead (by decide)
  · refine (parse_bounded_types ⟨"/", []⟩ ⟨"main.lua"⟩ text' {} (some "")).2.2 "x" nested
      Kind.eof.word [] hdeep ?_
    rw [Token.contents, Token.readings, String.toList_append, String.toList_join]
    decide +kernel

set_option maxRecDepth 100000 in
/-- Functions that return a lone function are not counted, nor arrays of what is nested further, nor
the variadic argument of a function that is declared: each way a type can be made that is nested
deeper than constructs may be open. -/
theorem types_beyond_limit :
    let repeated (n : Nat) (word : String) := String.join (List.replicate n word)
    ∀ text ∈ ["extern f:" ++ repeated 65 "()=>" ++ "void",
      "local x: \x7bx:\x7bx:\x7b\x7d\x7d\x7d" ++ repeated 62 "[]",
      "extern function f(...:" ++ repeated 63 " ..." ++ "): void"],
    ∃ m s, parse ⟨"/", []⟩ ⟨"main.lua"⟩ text {} = (some m, s) ∧
      nestingLimit < (s.types.unfold ⟨71⟩).depth := by
  intro repeated
  have hrepeated (n : Nat) (word : String) :
      (repeated n word).toList = (List.replicate n word.toList).flatten := by
    rw [String.toList_join, List.flatMap, List.map_replicate]
  simp only [List.forall_mem_cons]
  refine ⟨exists_of_found ?_, exists_of_found ?_, exists_of_found ?_, nofun⟩
  all_goals
    rw [parse_toList]
    simp only [String.toList_append, hrepeated]
    decide +kernel

end Session

end TypedLua
