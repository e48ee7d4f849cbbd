import TypedLua.Proofs.Grammar.Derivation
import TypedLua.Proofs.Session.Runs
import TypedLua.Proofs.Token.Rendering

/-!
# Session.Spans

The places in a module that is parsed.  A module that is read occupies all tokens of its text: each
node stands from the first to the last of its own tokens, and these are words of its own and the
tokens of its parts, in the order in which it is written.  So the parts of a node stand inside it,
in order and without overlap.

Main statement: `Session.parse_laid`.
-/

namespace TypedLua

open Text

/-- What a stream has left at its start are the tokens of its text. -/
theorem Token.Stream.Of.tokenize {source : String} {s : Stream} {ts : List Token} {q : Position}
    (h : s.Of source) (hs : ofSource source = .ok s)
    (hremaining : s.remaining = (ts ++ [Token.eof q]).map .ok) :
    Token.tokenize source = .ok (ts ++ [.eof q]) := by
  obtain ⟨rs, q', hrs, hkinds⟩ := h.ends
  rw [hremaining, List.map_append] at hrs
  obtain ⟨rfl, -⟩ := List.append_inj' hrs rfl
  refine tokenize_of_readings (remaining_ofSource hs ▸ hremaining) fun t ht => ?_
  exact hkinds t (List.mem_map_of_mem ht)

namespace Session

/-- A module that is read occupies the tokens of its text, less the end. -/
theorem readModule_occupies {files : FileTree} {load : Loader} {file : SourceFile} {s t : Session}
    {m : Module} (h : readModule files load file s = (.ok m, t)) :
    ∃ ts last, Token.tokenize file.text = .ok (ts ++ [last]) ∧
      m.block.Occupies file.text ts last := by
  obtain ⟨stream, u, hstream, hmodule, -⟩ := readModule_eq_ok h
  have hof := Token.Stream.of_ofSource hstream
  obtain ⟨ts, q, hremaining, hblock⟩ := Consumes.module hof hmodule
  exact ⟨ts, _, hof.tokenize hstream hremaining, hblock⟩

/-- **Spans nest.**  In a module that is parsed, every node stands at a span of the text, and its
parts stand inside it, in order and without overlap.  The span starts with the first of the tokens
that the node is written with, and it ends with the last of them; these are words of its own and the
tokens of its parts, as `Expr.IsWritten` and `Stmt.IsWritten` tell for each form, and the module has
all tokens of the text but the end. -/
theorem parse_laid {files : FileTree} {path : Path} {text : String} {s t : Session} {m : Module}
    (h : parse files path text s = (some m, t)) :
    m.block.Laid (Span.IsIn text) ∧
      ∃ ts last, Token.tokenize text = .ok (ts ++ [last]) ∧ m.block.Occupies text ts last := by
  obtain ⟨u, hread, -⟩ := parseWith_eq_some h
  obtain ⟨ts, last, htokens, hblock⟩ := readModule_occupies hread
  exact ⟨hblock.laid, ts, last, htokens, hblock⟩

set_option maxRecDepth 4000 in
/-- An extern and a call of it, with a group and a constructor. -/
theorem parse_laid_call :
    let text := "extern f: any f(('a'), \x7b 'b', 'c' \x7d)"
    ∃ m s, parse ⟨"/", []⟩ ⟨"main.lua"⟩ text {} = (some m, s) ∧ m.block.body.length = 2 ∧
      m.block.Laid (Span.IsIn text) ∧
      ∃ ts last, Token.tokenize text = .ok (ts ++ [last]) ∧ m.block.Occupies text ts last := by
  intro text
  obtain ⟨m, s, hparse, hlength⟩ : ∃ m s, parse ⟨"/", []⟩ ⟨"main.lua"⟩ text {} = (some m, s) ∧
      m.block.body.length = 2 := exists_of_found (by rw [parse_ofList]; decide +kernel)
  exact ⟨m, s, hparse, hlength, parse_laid hparse⟩

end Session

end TypedLua
