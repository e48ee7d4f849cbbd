import TypedLua.Proofs.Session.Spans

/-!
# Session.Derivation

A text that is read as a module can be derived from the rules of the language, but for a comma after
the last parameter of a function, which the rules do not have.

Main statement: `Session.parse_derives`.
-/

namespace TypedLua

open Text
open Token (Kind)
open Rules (Apart Derives accepted documented)

namespace Session

/-- **A text that is read as a module follows the rules.**  Its tokens, less the end, can be derived
from the rules that readers go by.  They can be derived from the rules of the language exactly if no
comma comes directly before a closing parenthesis. -/
theorem parse_derives {files : FileTree} {path : Path} {text : String} {s t : Session} {m : Module}
    (hparse : parse files path text s = (some m, t)) :
    ∃ tokens, Token.tokenize text = .ok tokens ∧
      Derives accepted (.rule .block) (tokens.dropLast.map Token.kind) ∧
      (Derives documented (.rule .block) (tokens.dropLast.map Token.kind) ↔
        Apart .comma .rightParen (tokens.dropLast.map Token.kind)) := by
  obtain ⟨u, hread, -⟩ := parseWith_eq_some hparse
  obtain ⟨ts, last, htokens, hbody, -⟩ := readModule_occupies hread
  have hderives := (hbody.imp fun _ _ _ hm => hm.written.derives).block
  refine ⟨_, htokens, ?_⟩
  rw [List.dropLast_concat]
  exact ⟨hderives, Rules.documented_iff_apart hderives⟩

/-- A text with entries, suffixes, a block and a list of returns, in which no comma comes directly
before a closing parenthesis. -/
theorem parse_derives_mixed :
    let text := "interface Box<T> \x7b value: T; \x7d\n" ++
      "extern function f(a: Box<number>, ...: string): number[], () => void\n" ++
      "do ; f(\x7b value = 1, f, \x7d, nil)'s'.t[f]() end"
    ∃ m s tokens, parse ⟨"/", []⟩ ⟨"main.lua"⟩ text {} = (some m, s) ∧
      Token.tokenize text = .ok tokens ∧
      Derives documented (.rule .block) (tokens.dropLast.map Token.kind) := by
  intro text
  obtain ⟨m, s, hparse, -⟩ : ∃ m s, parse ⟨"/", []⟩ ⟨"main.lua"⟩ text {} = (some m, s) ∧ True := by
    unfold text
    rw [← String.ofList_append, ← String.ofList_append, parse_ofList]
    exact exists_of_found (by decide +kernel)
  obtain ⟨tokens, htokens, -, hderives⟩ := parse_derives hparse
  have hapart : (Token.tokenize text).toOption.map
      (fun tokens => decide (Apart .comma .rightParen (tokens.dropLast.map Token.kind))) =
        some true := by
    unfold text
    rw [← String.ofList_append, ← String.ofList_append, Token.tokenize, Token.Stream.ofSource,
      Token.readings_ofList]
    decide +kernel
  rw [htokens] at hapart
  exact ⟨m, s, tokens, hparse, htokens, hderives.2 (of_decide_eq_true (Option.some.inj hapart))⟩

/-- A comma after the last parameter of a function is read, but the rules have no such comma. -/
theorem comma_after_parameters :
    let text := "extern function f(a,): void"
    let kinds : List Kind := [.kwExtern, .kwFunction, .identifier, .leftParen, .identifier, .comma,
      .rightParen, .colon, .identifier]
    (∃ m s, parse ⟨"/", []⟩ ⟨"main.lua"⟩ text {} = (some m, s)) ∧
      (Token.tokenize text).toOption.map (fun tokens => tokens.dropLast.map Token.kind) =
        some kinds ∧
      ¬ Derives documented (.rule .block) kinds := by
  intro text kinds
  obtain ⟨m, s, hparse, -⟩ : ∃ m s, parse ⟨"/", []⟩ ⟨"main.lua"⟩ text {} = (some m, s) ∧ True :=
    exists_of_found (by rw [parse_ofList]; decide +kernel)
  refine ⟨⟨m, s, hparse⟩, by decide +kernel, fun hderives => ?_⟩
  have hapart : Apart .comma .rightParen kinds := hderives.apart Rules.separate_documented rfl
  revert hapart
  decide

end Session

end TypedLua
