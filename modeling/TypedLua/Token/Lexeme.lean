import TypedLua.Text.Identifier
import TypedLua.Token.Kind
import TypedLua.Token.LongBracket
import TypedLua.Token.Numeral
import TypedLua.Token.Quoted

/-!
# TypedLua.Token.Lexeme

Reading one lexeme from the head of a text.  Blanks and comments are passed over; what follows is a
string, a word, a numeral, a symbol or the end of the text, or it is at fault.  Positions play no
part here: a lexeme splits the text into what is passed over, what the token or the fault spans, and
the rest.

Main statements: `Lexeme.read_text`, a lexeme loses nothing of the text, and
`Lexeme.rest_length_lt`, every lexeme but the end of the text leaves less of it.
-/

namespace TypedLua.Token

open Text

/-! ## §1. Faults -/

/-- Why a text cannot be read as tokens. -/
inductive LexicalCause where
  /-- A short string without its closing quote. -/
  | unfinishedString (quote : Char)
  /-- An escape that stands for nothing. -/
  | badEscape (escaped : Char)
  /-- A long string that is never closed. -/
  | unfinishedLongString
  /-- A long comment that is never closed. -/
  | unfinishedLongComment
  /-- An opening bracket and `=` that do not open a long string. -/
  | badLongDelimiter
  /-- A character that starts no token. -/
  | unexpectedCharacter (c : Char)
deriving DecidableEq, Repr

/-- The wording of a lexical fault. -/
def LexicalCause.message : LexicalCause → String
  | unfinishedString quote => s!"unfinished string, expected closing {quote}"
  | badEscape c => s!"invalid escape sequence '\\{c}'"
  | unfinishedLongString => "unfinished long string near <eof>"
  | unfinishedLongComment => "unfinished long comment near <eof>"
  | badLongDelimiter => "invalid long string delimiter"
  | unexpectedCharacter c => s!"unexpected character '{c}'"

/-! ## §2. Blanks and comments -/

/-- Whether `c` is passed over between tokens. -/
def isBlank (c : Char) : Bool :=
  c == ' ' || c == '\t' || c == '\r' || c == '\n' || c == '\x0b' || c == '\x0c'

/-- What follows the two hyphens of a comment: the rest of the comment and the text after it.  A
long comment that is never closed gives nothing. -/
def readComment? (cs : List Char) : Option (List Char × List Char) :=
  match longLevel? cs with
  | some level => (readLong? level cs).map fun t => (t.body, t.rest)
  | none => some (cs.takeWhile (· != '\n'), cs.dropWhile (· != '\n'))

/-- How passing over blanks and comments ends. -/
inductive Gap where
  /-- A token or the end of the text is reached. -/
  | reached (skipped rest : List Char)
  /-- A long comment is never closed; it takes all that is left. -/
  | unfinished (skipped comment : List Char)
deriving Repr

namespace Gap

/-- Put passed-over text in front. -/
def push (text : List Char) : Gap → Gap
  | reached s r => reached (text ++ s) r
  | unfinished s c => unfinished (text ++ s) c

/-- The whole text that a gap was read from. -/
def text : Gap → List Char
  | reached s r => s ++ r
  | unfinished s c => s ++ c

@[simp] theorem text_push (t : List Char) (g : Gap) : (g.push t).text = t ++ g.text := by
  cases g <;> simp [push, text]

@[simp] theorem text_reached (s r : List Char) : (reached s r).text = s ++ r := rfl

@[simp] theorem text_unfinished (s c : List Char) : (unfinished s c).text = s ++ c := rfl

end Gap

/-- Pass over at most `fuel` blanks and comments. -/
def skipGap : Nat → List Char → Gap
  | 0, cs => .reached [] cs
  | _ + 1, [] => .reached [] []
  | fuel + 1, '-' :: '-' :: cs =>
    match readComment? cs with
    | some (comment, rest) => (skipGap fuel rest).push ('-' :: '-' :: comment)
    | none => .unfinished [] ('-' :: '-' :: cs)
  | fuel + 1, c :: cs => if isBlank c then (skipGap fuel cs).push [c] else .reached [] (c :: cs)

/-- Pass over all blanks and comments at the head of the text. -/
def gap (cs : List Char) : Gap := skipGap cs.length cs

/-! ## §3. Lexemes -/

/-- One lexeme read from the head of a text. -/
structure Lexeme where
  /-- The text passed over before it. -/
  lead : List Char
  /-- The text that the token, or the fault, spans. -/
  body : List Char
  /-- The text after it. -/
  rest : List Char
  /-- The kind and the text of the token, or why there is none. -/
  outcome : Except LexicalCause (Kind × String)

namespace Lexeme

/-- The longest symbol that the text starts with. -/
def symbol? (cs : List Char) : Option (Kind × String) :=
  Kind.symbols.findSome? fun k =>
    k.text?.bind fun text => if text.toList.isPrefixOf cs then some (k, text) else none

/-- The string after an opening quote. -/
def quoted (quote : Char) (cs : List Char) : Lexeme :=
  match readQuoted quote cs with
  | .closed value body rest => ⟨[], quote :: body, rest, .ok (.string, String.ofList value)⟩
  | .unfinished body rest => ⟨[], quote :: body, rest, .error (.unfinishedString quote)⟩
  | .badEscape before c rest => ⟨quote :: before, ['\\', c], rest, .error (.badEscape c)⟩

/-- The long string of the given level. -/
def long (level : Nat) (cs : List Char) : Lexeme :=
  match readLong? level cs with
  | some t => ⟨[], t.body, t.rest, .ok (.string, String.ofList t.value)⟩
  | none => ⟨[], cs, [], .error .unfinishedLongString⟩

/-- The words that the table of ASCII tokens lists, with the kind of each. -/
def tableWords : List (String × Kind) :=
  [("and", .kwAnd), ("break", .kwBreak), ("do", .kwDo), ("else", .kwElse), ("elseif", .kwElseif),
   ("end", .kwEnd), ("false", .kwFalse), ("for", .kwFor), ("function", .kwFunction), ("if", .kwIf),
   ("in", .kwIn), ("local", .kwLocal), ("nil", .kwNil), ("not", .kwNot), ("or", .kwOr),
   ("repeat", .kwRepeat), ("return", .kwReturn), ("then", .kwThen), ("true", .kwTrue),
   ("until", .kwUntil), ("const", .kwConst), ("class", .kwClass), ("constructor", .kwConstructor),
   ("implicit", .kwImplicit), ("type", .kwType), ("import", .kwImport), ("export", .kwExport),
   ("from", .kwFrom), ("extern", .kwExtern), ("interface", .kwInterface), ("while", .kwWhile)]

/-- The kind that the table gives a word: that of its entry, which comes before the rule for
identifiers. -/
def tableKind (word : String) : Kind := (tableWords.lookup word).getD .identifier

/-- The word that is read character by character; it is an identifier. -/
def runWord (cs : List Char) : Lexeme :=
  let body := cs.takeWhile isWordPart
  ⟨[], body, cs.dropWhile isWordPart, .ok (.identifier, String.ofList body)⟩

/-- The longest word that the table finds.  If it goes on with a character beyond ASCII, it is read
again, character by character. -/
def tableWord (cs : List Char) : Lexeme :=
  let body := cs.takeWhile fun c => isAscii c && isWordPart c
  let rest := cs.dropWhile fun c => isAscii c && isWordPart c
  let kind := tableKind (String.ofList body)
  if rest.head?.any (fun c => !isAscii c && isWordPart c) && (kind == .identifier || kind.isKeyword)
  then runWord cs
  else ⟨[], body, rest, .ok (kind, String.ofList body)⟩

/-- The word that starts with `c`: the table has only those that start with an ASCII character. -/
def word (c : Char) (cs : List Char) : Lexeme :=
  if isAscii c then tableWord (c :: cs) else runWord (c :: cs)

/-- The numeral or symbol that the text starts with. -/
def plain (c : Char) (cs : List Char) : Lexeme :=
  match numeral? (c :: cs) with
  | some (body, rest) => ⟨[], body, rest, .ok (.number, String.ofList body)⟩
  | none =>
    match symbol? (c :: cs) with
    | some (k, text) =>
      ⟨[], text.toList, (c :: cs).drop text.toList.length, .ok (k, text)⟩
    | none => ⟨[], [c], cs, .error (.unexpectedCharacter c)⟩

/-- The lexeme at the head of a text that starts with neither a blank nor a comment. -/
def head : List Char → Lexeme
  | [] => ⟨[], [], [], .ok (.eof, "")⟩
  | c :: cs =>
    if c = '\'' || c = '"' then quoted c cs
    else if isWordStart c then word c cs
    else
      match longLevel? (c :: cs) with
      | some level => long level (c :: cs)
      | none =>
        if c = '[' && cs.head? == some '=' then ⟨[], [c], cs, .error .badLongDelimiter⟩
        else plain c cs

/-- The first lexeme of a text. -/
def read (cs : List Char) : Lexeme :=
  match gap cs with
  | .reached skipped rest => { head rest with lead := skipped ++ (head rest).lead }
  | .unfinished skipped comment => ⟨skipped, comment, [], .error .unfinishedLongComment⟩

end Lexeme

/-! ## §4. Nothing is lost -/

theorem readComment?_eq_some {cs comment rest : List Char}
    (h : readComment? cs = some (comment, rest)) : comment ++ rest = cs := by
  unfold readComment? at h
  split at h
  · obtain ⟨t, ht, he⟩ := Option.map_eq_some_iff.1 h
    obtain ⟨rfl, rfl⟩ := Prod.mk.inj he
    exact readLong?_eq_some ht
  · obtain ⟨rfl, rfl⟩ := Prod.mk.inj (Option.some.inj h)
    exact List.takeWhile_append_dropWhile

theorem skipGap_text (fuel : Nat) (cs : List Char) : (skipGap fuel cs).text = cs := by
  fun_induction skipGap fuel cs with
  | case3 fuel cs comment rest h ih => simp [ih, readComment?_eq_some h]
  | _ => simp_all

theorem gap_text (cs : List Char) : (gap cs).text = cs := skipGap_text _ _

namespace Lexeme

/-- The text that a lexeme was read from. -/
def text (l : Lexeme) : List Char := l.lead ++ l.body ++ l.rest

theorem symbol?_eq_some {cs : List Char} {k : Kind} {text : String}
    (h : symbol? cs = some (k, text)) : k ∈ Kind.symbols ∧ k.text? = some text ∧
      text.toList <+: cs := by
  obtain ⟨j, hj, hf⟩ := List.exists_of_findSome?_eq_some h
  obtain ⟨t, ht, hp⟩ := Option.bind_eq_some_iff.1 hf
  split at hp
  · next hpre =>
    obtain ⟨rfl, rfl⟩ := Prod.mk.inj (Option.some.inj hp)
    exact ⟨hj, ht, List.isPrefixOf_iff_prefix.1 hpre⟩
  · simp at hp

theorem quoted_text (quote : Char) (cs : List Char) : (quoted quote cs).text = quote :: cs := by
  have h := readQuoted_text quote cs
  unfold quoted
  split <;> next hq => rw [hq] at h; simpa [text] using h

theorem long_text (level : Nat) (cs : List Char) : (long level cs).text = cs := by
  unfold long
  split
  · next h => simpa [text] using readLong?_eq_some h
  · simp [text]

theorem runWord_text (cs : List Char) : (runWord cs).text = cs := by
  simp [runWord, text, List.takeWhile_append_dropWhile]

theorem word_text (c : Char) (cs : List Char) : (word c cs).text = c :: cs := by
  unfold word tableWord
  split
  · dsimp only
    split
    · exact runWord_text _
    · simp only [text, List.nil_append]
      exact List.takeWhile_append_dropWhile
  · exact runWord_text _

theorem word_lead (c : Char) (cs : List Char) : (word c cs).lead = [] := by
  unfold word tableWord
  split
  · dsimp only
    split <;> rfl
  · rfl

theorem plain_text (c : Char) (cs : List Char) : (plain c cs).text = c :: cs := by
  unfold plain
  split
  · next h => simpa [text] using numeral?_eq_some h
  · split
    · next h =>
      obtain ⟨t, ht⟩ := (symbol?_eq_some h).2.2
      rw [← ht]
      simp [text]
    · simp [text]

theorem head_text (cs : List Char) : (head cs).text = cs := by
  unfold head
  split
  · rfl
  · split
    · exact quoted_text ..
    · split
      · exact word_text ..
      · split
        · exact long_text ..
        · split
          · simp [text]
          · exact plain_text ..

/-- A lexeme loses nothing of the text it is read from. -/
theorem read_text (cs : List Char) : (read cs).text = cs := by
  have hg := gap_text cs
  unfold read
  split
  · next skipped rest h =>
    have hr := head_text rest
    rw [h] at hg
    rw [← hg, Gap.text_reached]
    simpa [text] using congrArg (skipped ++ ·) hr
  · next h =>
    rw [h] at hg
    simpa [text] using hg

/-! ## §5. Progress -/

/-- No symbol is spelled with nothing. -/
theorem spelling_ne_nil : ∀ k ∈ Kind.symbols, k.text?.all fun t => !t.toList.isEmpty := by decide

theorem plain_body_ne_nil (c : Char) (cs : List Char) : (plain c cs).body ≠ [] := by
  unfold plain
  split
  · next body rest h =>
    unfold numeral? at h
    split at h <;> (try split at h) <;> simp at h
    all_goals obtain ⟨rfl, rfl⟩ := h; simp
  · split
    · next h =>
      obtain ⟨hk, ht, -⟩ := symbol?_eq_some h
      have := spelling_ne_nil _ hk
      rw [ht] at this
      simpa using this
    · simp

theorem head_body_ne_nil (c : Char) (cs : List Char) : (head (c :: cs)).body ≠ [] := by
  rw [head]
  split
  · unfold quoted
    split <;> simp
  · split
    · next h =>
      unfold word tableWord runWord
      split
      · dsimp only
        split <;> simp [isWordPart_of_isWordStart h, *]
      · simp [isWordPart_of_isWordStart h]
    · split
      · unfold long
        split
        · next h =>
          obtain ⟨⟨v, r⟩, -, rfl⟩ := Option.map_eq_some_iff.1 h
          simp [closer]
        · simp
      · split
        · simp
        · exact plain_body_ne_nil c cs

/-- A lexeme that spans nothing is the end of the text, and nothing is left after it. -/
theorem read_of_body_eq_nil {cs : List Char} (h : (read cs).body = []) :
    (read cs).rest = [] ∧ (read cs).outcome = .ok (.eof, "") := by
  unfold read at h ⊢
  split at h
  · next skipped rest hg =>
    cases rest with
    | nil => exact ⟨rfl, rfl⟩
    | cons c cs => exact absurd h (head_body_ne_nil c cs)
  · next skipped comment hg =>
    simp only at h
    subst h
    exfalso
    have : ∀ fuel cs s, skipGap fuel cs ≠ .unfinished s [] := by
      intro fuel cs
      fun_induction skipGap fuel cs with
      | case3 fuel cs comment rest _ ih =>
        intro s hs
        cases hk : skipGap fuel rest <;> rw [hk] at hs <;> simp [Gap.push] at hs
        exact ih _ (hs.2 ▸ hk)
      | case5 fuel c cs _ _ ih =>
        intro s hs
        cases hk : skipGap fuel cs <;> rw [hk] at hs <;> simp [Gap.push] at hs
        exact ih _ (hs.2 ▸ hk)
      | _ => simp
    exact this _ _ _ hg

/-- Every lexeme but the end of the text leaves less text than it was read from. -/
theorem rest_length_lt {cs : List Char} (h : (read cs).outcome ≠ .ok (.eof, "")) :
    (read cs).rest.length < cs.length := by
  have hb : (read cs).body ≠ [] := fun hb => h (read_of_body_eq_nil hb).2
  have ht := congrArg List.length (read_text cs)
  have := List.length_pos_iff.2 hb
  simp only [text, List.length_append] at ht
  omega

end Lexeme

end TypedLua.Token
