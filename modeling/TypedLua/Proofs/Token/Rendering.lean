import TypedLua.Proofs.Token.Tiling
import TypedLua.Proofs.Token.Words

/-!
# Token.Rendering

Writing tokens and reading them back.  A keyword or a symbol is written as it is spelled, a word or a
numeral as its text, and a string in double quotes with the four characters escaped that would
otherwise not stay within it.  Between two tokens there is one blank.  What is written so reads back
as the same kinds and texts, since each class of tokens reads its own written form, and goes no
further than the blank after it.

Main statement: `tokenize_render`.
-/

namespace TypedLua

open Text

variable {k : Kind} {text : String} {rest cs lead : List Char} {c : Char} {t : Token}

namespace Token

/-! ## Written forms -/

/-- The part of a numeral after its first digit: letters, digits, underscores and points, and signs
that follow an exponent mark. -/
inductive NumeralTail : List Char → Prop
  | nil : NumeralTail []
  | part {c : Char} {cs : List Char} : isNumeralPart c = true → NumeralTail cs → NumeralTail (c :: cs)
  | exponent {mark sign : Char} {cs : List Char} : isExponentMark mark = true →
      sign = '+' ∨ sign = '-' → NumeralTail cs → NumeralTail (mark :: sign :: cs)

/-- The form of a numeral. -/
inductive Numeral : List Char → Prop
  | digit {d : Char} {cs : List Char} : d.isDigit = true → NumeralTail cs → Numeral (d :: cs)
  | point {d : Char} {cs : List Char} : d.isDigit = true → NumeralTail cs → Numeral ('.' :: d :: cs)

/-- Whether the text has the form of a word. -/
def isWord : List Char → Bool
  | [] => false
  | c :: cs => isWordStart c && cs.all isWordPart

/-- A character as it is written in a string. -/
def escapeChar (c : Char) : List Char :=
  if c = '\\' then ['\\', '\\']
  else if c = '"' then ['\\', '"']
  else if c = '\n' then ['\\', 'n']
  else if c = '\r' then ['\\', 'r']
  else [c]

/-- A string literal. -/
def quote (text : List Char) : List Char := '"' :: (text.flatMap escapeChar ++ ['"'])

/-- The kinds and texts that can be written.  Two hyphens are a comment. -/
inductive Writable : Kind → String → Prop
  | spelled {k : Kind} {text : String} : k.text? = some text → k ≠ .minusMinus → Writable k text
  | identifier {text : String} : isWord text.toList = true → (∀ k ∈ Kind.keywords, k.text? ≠ some text) →
      Writable .identifier text
  | number {text : String} : Numeral text.toList → Writable .number text
  | string (text : String) : Writable .string text

theorem Writable.kind_ne_eof (h : Writable k text) : k ≠ .eof := by
  rintro rfl
  cases h with
  | spelled htext => cases htext

/-- A token as it is written. -/
def written (t : Token) : String :=
  if t.kind = .string then String.ofList (quote t.text.toList) else t.kind.text?.getD t.text

/-- Tokens as they are written, with one blank between two of them. -/
def render (ts : List Token) : String := " ".intercalate (ts.map written)

theorem Kind.mem_keywords_or_symbols (h : k.text?.isSome) (hne : k ≠ .minusMinus) :
    k ∈ keywords ∨ k ∈ symbols := by
  cases k <;> first
    | exact absurd rfl hne
    | exact .inl (by decide)
    | exact .inr (by decide)
    | cases h

theorem Kind.isWord_of_mem_keywords (hk : k ∈ keywords) (htext : k.text? = some text) :
    isWord text.toList = true := by
  have hall : ∀ k ∈ keywords, k.text?.all (fun text => isWord text.toList) = true := by decide
  have hspelled := hall k hk
  rwa [htext] at hspelled

/-! ## One token -/

/-- The text is at its end or goes on with a blank. -/
def Parted (rest : List Char) : Prop := rest = [] ∨ ∃ more, rest = ' ' :: more

theorem numeralTail_of_parted (h : Parted rest) (mark : Bool) :
    numeralTail mark rest = ([], rest) := by
  rcases h with rfl | ⟨more, rfl⟩
  · rfl
  · cases mark <;> rfl

theorem isNumeralPart_of_isExponentMark (h : isExponentMark c = true) : isNumeralPart c = true := by
  rcases (by simpa [isExponentMark] using h : c = 'e' ∨ c = 'E') with rfl | rfl <;> rfl

/-- A numeral ends where something parts it from what follows. -/
theorem NumeralTail.numeralTail_append (h : NumeralTail cs) (hrest : Parted rest) (mark : Bool) :
    numeralTail mark (cs ++ rest) = (cs, rest) := by
  induction h generalizing mark with
  | nil => exact numeralTail_of_parted hrest mark
  | part hc _ ih => simp [numeralTail, hc, ih]
  | @exponent mark' sign cs hmark hsign _ ih =>
    have hpart := isNumeralPart_of_isExponentMark hmark
    rcases hsign with rfl | rfl <;> simp [numeralTail, hpart, hmark, ih]

/-- Escapes are read as the characters that they stand for. -/
theorem readQuoted_escaped (text rest : List Char) :
    readQuoted '"' (text.flatMap escapeChar ++ '"' :: rest) =
      .closed text (text.flatMap escapeChar ++ ['"']) rest := by
  induction text with
  | nil => rfl
  | cons c cs ih =>
    rw [List.flatMap_cons, List.append_assoc, List.append_assoc]
    by_cases hslash : c = '\\'
    · subst hslash
      simp [escapeChar, readQuoted, unescape?, ih, Quoted.push]
    · by_cases hquote : c = '"'
      · subst hquote
        simp [escapeChar, readQuoted, unescape?, ih, Quoted.push]
      · by_cases hbreak : c = '\n'
        · subst hbreak
          simp [escapeChar, readQuoted, unescape?, ih, Quoted.push]
        · by_cases hreturn : c = '\r'
          · subst hreturn
            simp [escapeChar, readQuoted, unescape?, ih, Quoted.push]
          · -- any other character stands for itself
            simp [escapeChar, readQuoted, hslash, hquote, hbreak, hreturn, ih, Quoted.push]

namespace Lexeme

/-- A quoted text is read as the string. -/
theorem head_quote (text rest : List Char) :
    head (quote text ++ rest) = ⟨[], quote text, rest, .ok (.string, String.ofList text)⟩ := by
  have hread := readQuoted_escaped text rest
  simp [quote, head, quoted, hread]

theorem head_of_isWordStart (h : isWordStart c = true) (cs : List Char) :
    head (c :: cs) = word c cs := by
  have hquote : ¬ (c = '\'' ∨ c = '"') := by
    rintro (rfl | rfl) <;> exact absurd h (by decide)
  simp [head, hquote, h]

/-- A word is read as the keyword or the name that it is. -/
theorem head_word (h : isWord cs = true) (hrest : Parted rest) :
    head (cs ++ rest) =
      ⟨[], cs, rest, .ok (tableKind (String.ofList cs), String.ofList cs)⟩ := by
  cases cs with
  | nil => cases h
  | cons c cs =>
    simp only [isWord, Bool.and_eq_true, List.all_eq_true] at h
    have hall : ∀ d ∈ c :: cs, isWordPart d = true := by
      intro d hd
      rcases List.mem_cons.1 hd with rfl | hd
      · exact isWordPart_of_isWordStart h.1
      · exact h.2 d hd
    have hstop : rest.takeWhile isWordPart = [] ∧ rest.dropWhile isWordPart = rest := by
      rcases hrest with rfl | ⟨more, rfl⟩
      · exact ⟨rfl, rfl⟩
      · exact ⟨rfl, rfl⟩
    rw [List.cons_append, head_of_isWordStart h.1, word_eq h.1, ← List.cons_append,
      List.takeWhile_append_of_pos hall, List.dropWhile_append_of_pos hall, hstop.1, hstop.2,
      List.append_nil]

theorem head_eq_plain (hquote : ¬ (c = '\'' ∨ c = '"')) (hword : isWordStart c = false)
    (hlong : longLevel? (c :: cs) = none) (hopen : ¬ (c = '[' ∧ cs.head? = some '=')) :
    head (c :: cs) = plain c cs := by
  simp [head, hquote, hword, hlong, hopen]

theorem head_plain (hquote : ¬ (c = '\'' ∨ c = '"'))
    (hword : isWordStart c = false) (hbracket : c ≠ '[') : head (c :: cs) = plain c cs := by
  refine head_eq_plain hquote hword ?_ fun hopen => hbracket hopen.1
  unfold longLevel?
  split
  · next heq => exact absurd (List.cons.inj heq).1 hbracket
  · rfl

theorem isWordStart_of_isDigit (h : c.isDigit = true) : isWordStart c = false := by
  have hrange : 48 ≤ c.toNat ∧ c.toNat ≤ 57 := by
    simpa [Char.isDigit, UInt32.le_iff_toNat_le] using h
  have hascii : isAscii c = true := by
    simp [isAscii]
    omega
  have halpha : c.isAlpha = false := by
    show (decide ('A'.val ≤ c.val ∧ c.val ≤ 'Z'.val) ||
      (decide ('a'.val ≤ c.val) && decide (c.val ≤ 'z'.val))) = false
    simp [UInt32.le_iff_toNat_le]
    omega
  have hunderscore : (c == '_') = false := by
    rw [beq_eq_false_iff_ne]
    rintro rfl
    simp at hrange
  rw [isWordStart, if_pos hascii, halpha, hunderscore, Bool.or_false]

/-- A numeral is read as the number token. -/
theorem head_numeral (h : Numeral cs) (hrest : Parted rest) :
    head (cs ++ rest) = ⟨[], cs, rest, .ok (.number, String.ofList cs)⟩ := by
  cases h with
  | @digit d cs hd hcs =>
    have hne : ∀ c : Char, c.isDigit = false → d ≠ c := by
      rintro c hc rfl
      rw [hc] at hd
      cases hd
    have hword : isWordStart d = false := isWordStart_of_isDigit hd
    have hnumeral : numeral? (d :: (cs ++ rest)) = some (d :: cs, rest) := by
      unfold numeral?
      split
      · next heq => exact absurd (List.cons.inj heq).1 (hne '.' rfl)
      · next heq =>
        obtain ⟨rfl, rfl⟩ := List.cons.inj heq
        simp [hd, hcs.numeralTail_append hrest]
      · next heq => cases heq
    rw [List.cons_append, head_plain (by simp [hne]) hword (hne '[' rfl), plain, hnumeral]
  | @point d cs hd hcs =>
    have hnumeral : numeral? ('.' :: d :: (cs ++ rest)) = some ('.' :: d :: cs, rest) := by
      simp [numeral?, hd, hcs.numeralTail_append hrest]
    rw [List.cons_append, List.cons_append, head_plain (by decide) (by decide) (by decide), plain,
      hnumeral]

/-- A symbol is read as itself. -/
theorem head_symbol (hk : k ∈ Kind.symbols) (htext : k.text? = some text) (hrest : Parted rest) :
    head (text.toList ++ rest) = ⟨[], text.toList, rest, .ok (k, text)⟩ := by
  -- a longer symbol would have to go on with the blank, which no symbol holds
  cases k <;> first
    | exact absurd hk (by decide)
    | cases htext; rcases hrest with rfl | ⟨more, rfl⟩ <;> rfl

/-- A token that can be written is read as it was written. -/
theorem head_written (h : Writable t.kind t.text) (hrest : Parted rest) :
    head (t.written.toList ++ rest) = ⟨[], t.written.toList, rest, .ok t.content⟩ := by
  obtain ⟨kind, text, span⟩ := t
  -- the text of a word is its written form, and only the keyword spelled so has it
  have hword : isWord text.toList = true →
      head (text.toList ++ rest) = ⟨[], text.toList, rest, .ok (tableKind text, text)⟩ := by
    intro hform
    have hhead := head_word hform hrest
    rwa [String.ofList_toList] at hhead
  cases h with
  | spelled htext hne =>
    have hwritten : written ⟨kind, text, span⟩ = text := by
      have hstring : kind ≠ .string := by
        rintro rfl
        cases htext
      simp only [written]
      rw [if_neg hstring, htext]
      rfl
    rw [hwritten]
    rcases Kind.mem_keywords_or_symbols (by rw [htext]; rfl) hne with hk | hk
    · rw [hword (Kind.isWord_of_mem_keywords hk htext), tableKind,
        lookup_tableWords, Kind.keyword?_eq_some_iff.2 ⟨hk, htext⟩]
      rfl
    · exact head_symbol hk htext hrest
  | identifier hform hnot =>
    have hnone : Kind.keyword? text = none := by
      rw [Option.eq_none_iff_forall_ne_some]
      intro k hk
      obtain ⟨hmem, htext⟩ := Kind.keyword?_eq_some_iff.1 hk
      exact hnot k hmem htext
    have hhead := hword hform
    rw [tableKind, lookup_tableWords, hnone] at hhead
    exact hhead
  | number hform =>
    have hhead := head_numeral hform hrest
    rw [String.ofList_toList] at hhead
    exact hhead
  | string text =>
    have hhead := head_quote text.toList rest
    rw [String.ofList_toList] at hhead
    simpa [written, content] using hhead

theorem skipGap_of_head {body : List Char} {x : Kind × String}
    (h : head (c :: cs) = ⟨[], body, rest, .ok x⟩) (hrest : Parted rest) (fuel : Nat) :
    skipGap fuel (c :: cs) = .reached [] (c :: cs) := by
  have hblank : isBlank c = false := by
    rw [Bool.eq_false_iff]
    intro hblank
    simp only [isBlank, Bool.or_eq_true, beq_iff_eq] at hblank
    -- no token starts with one of the blanks
    rcases hblank with ((((rfl | rfl) | rfl) | rfl) | rfl) | rfl <;> cases h
  cases fuel with
  | zero => rfl
  | succ fuel =>
    by_cases hcomment : ∃ more, c :: cs = '-' :: '-' :: more
    · -- two hyphens would read as a minus sign with a hyphen right after it
      obtain ⟨more, hmore⟩ := hcomment
      rw [hmore] at h
      cases h
      rcases hrest with heq | ⟨_, heq⟩ <;> cases heq
    · rw [skipGap, if_neg (by simp [hblank])]
      rintro more rfl rfl
      exact hcomment ⟨more, rfl⟩

theorem read_of_head {body : List Char} {x : Kind × String} (h : head cs = ⟨[], body, rest, .ok x⟩)
    (hne : cs ≠ []) (hrest : Parted rest) (hlead : lead = [] ∨ lead = [' ']) :
    read (lead ++ cs) = ⟨lead, body, rest, .ok x⟩ := by
  cases cs with
  | nil => exact absurd rfl hne
  | cons c cs =>
    have hgap : gap (lead ++ c :: cs) = .reached lead (c :: cs) := by
      rcases hlead with rfl | rfl
      · exact skipGap_of_head h hrest _
      · show (skipGap (cs.length + 1) (c :: cs)).push [' '] = _
        rw [skipGap_of_head h hrest]
        rfl
    simp [read, hgap, h]

theorem written_ne_nil (ht : Writable t.kind t.text) : t.written.toList ≠ [] := by
  intro hnil
  have hhead := head_written ht (.inl rfl)
  rw [hnil] at hhead
  have hkind : t.kind = .eof := (congrArg Prod.fst (Except.ok.inj (congrArg outcome hhead))).symm
  exact ht.kind_ne_eof hkind

theorem read_written (ht : Writable t.kind t.text) (hrest : Parted rest)
    (hlead : lead = [] ∨ lead = [' ']) :
    read (lead ++ (t.written.toList ++ rest)) = ⟨lead, t.written.toList, rest, .ok t.content⟩ := by
  apply read_of_head (head_written ht hrest) _ hrest hlead
  intro hnil
  exact written_ne_nil ht (List.append_eq_nil_iff.1 hnil).1

end Lexeme

/-! ## All tokens -/

/-- Tokens as they are written, with one blank before each of them. -/
def spaced (ts : List Token) : List Char := ts.flatMap fun t => ' ' :: t.written.toList

theorem parted_spaced (ts : List Token) : Parted (spaced ts) := by
  cases ts with
  | nil => exact .inl rfl
  | cons t ts => exact .inr ⟨_, rfl⟩

theorem toList_render_cons (t : Token) (ts : List Token) :
    (render (t :: ts)).toList = t.written.toList ++ spaced ts := by
  rw [render, String.toList_intercalate]
  induction ts generalizing t with
  | nil => simp [spaced]
  | cons u us ih =>
    simp only [List.map_cons] at ih ⊢
    rw [List.intercalate_cons_cons, ih u]
    simp [spaced]

theorem readingsFrom_written (ht : Writable t.kind t.text) (hrest : Parted rest)
    (hlead : lead = [] ∨ lead = [' ']) (fuel : Nat) (p : Position) :
    ∃ u q, u.content = t.content ∧
      readingsFrom (fuel + 1) p (lead ++ (t.written.toList ++ rest)) =
        .ok u :: readingsFrom fuel q rest := by
  have hread := Lexeme.read_written ht hrest hlead
  have hkind : t.kind ≠ .eof := ht.kind_ne_eof
  let start := p.after lead
  refine ⟨⟨t.kind, t.text, start, start.after t.written.toList⟩, start.after t.written.toList,
    rfl, ?_⟩
  rw [readingsFrom, hread]
  simp only [Lexeme.place, content]
  split
  · next heq =>
    simp only [Except.ok.injEq, Prod.mk.injEq] at heq
    exact absurd heq.1 hkind
  · rfl

/-- Tokens with spaces between them are read one by one. -/
theorem readingsFrom_spaced {ts : List Token} (h : ∀ t ∈ ts, Writable t.kind t.text) {fuel : Nat}
    (hfuel : (spaced ts).length ≤ fuel) (p : Position) :
    ∃ us q, us.map content = ts.map content ∧
      readingsFrom fuel p (spaced ts) = (us ++ [Token.eof q]).map .ok := by
  induction ts generalizing fuel p with
  | nil =>
    refine ⟨[], p, rfl, ?_⟩
    cases fuel <;> rfl
  | cons t ts ih =>
    have hsplit : spaced (t :: ts) = [' '] ++ (t.written.toList ++ spaced ts) := by
      simp [spaced]
    simp only [hsplit, List.length_append, List.length_singleton] at hfuel
    obtain ⟨fuel, rfl⟩ : ∃ n, fuel = n + 1 := ⟨fuel - 1, by omega⟩
    obtain ⟨u, q, hu, hstep⟩ := readingsFrom_written (h t List.mem_cons_self) (parted_spaced ts)
      (.inr rfl) fuel p
    have hshort : (spaced ts).length ≤ fuel := by omega
    obtain ⟨us, q', hus, hrest⟩ := ih (fun t' ht' => h t' (List.mem_cons_of_mem t ht')) hshort q
    refine ⟨u :: us, q', by simp [hu, hus], ?_⟩
    rw [hsplit, hstep, hrest]
    rfl

/-- Rendered tokens are read back. -/
theorem readings_render {ts : List Token} (h : ∀ t ∈ ts, Writable t.kind t.text) :
    ∃ us q, us.map content = ts.map content ∧
      readings (render ts) = (us ++ [Token.eof q]).map .ok := by
  cases ts with
  | nil => exact ⟨[], .origin, rfl, rfl⟩
  | cons t ts =>
    have ht := h t List.mem_cons_self
    have htext : (render (t :: ts)).toList = [] ++ (t.written.toList ++ spaced ts) :=
      toList_render_cons t ts
    -- the first token takes at least one character, and no blank stands before it
    have hpos := List.length_pos_iff.2 (Lexeme.written_ne_nil ht)
    obtain ⟨fuel, hfuel⟩ : ∃ n, (render (t :: ts)).toList.length = n + 1 :=
      ⟨(render (t :: ts)).toList.length - 1, by simp only [htext, List.length_append]; omega⟩
    have hshort : (spaced ts).length ≤ fuel := by
      simp only [htext, List.length_append] at hfuel
      omega
    obtain ⟨u, q, hu, hstep⟩ := readingsFrom_written ht (parted_spaced ts) (.inl rfl) fuel .origin
    obtain ⟨us, q', hus, hrest⟩ := readingsFrom_spaced
      (fun t' ht' => h t' (List.mem_cons_of_mem t ht')) hshort q
    refine ⟨u :: us, q', by simp [hu, hus], ?_⟩
    rw [readings, hfuel, htext, hstep, hrest]
    rfl

/-- Readings without faults are the tokens. -/
theorem tokenize_of_readings {source : String} {us : List Token} {q : Position}
    (h : readings source = (us ++ [Token.eof q]).map .ok) (hus : ∀ u ∈ us, u.kind ≠ .eof) :
    tokenize source = .ok (us ++ [.eof q]) := by
  have hmapM : ∀ ts : List Token, (ts.map Except.ok).mapM (id : Reading → Reading) = .ok ts := by
    intro ts
    induction ts with
    | nil => rfl
    | cons t ts ih =>
      rw [List.map_cons, List.mapM_cons, ih]
      rfl
  unfold tokenize Stream.ofSource
  rw [h]
  cases us with
  | nil => rfl
  | cons u us =>
    have hkind := hus u List.mem_cons_self
    show Stream.tokens ⟨u, u.span.stop, (us ++ [Token.eof q]).map .ok⟩ = _
    rw [Stream.tokens, if_neg hkind, hmapM]
    rfl

/-- **Reading undoes writing.**  The text of tokens that can be written, with one blank between two
of them, is read as the same kinds and texts, and then it ends. -/
theorem tokenize_render {ts : List Token} (h : ∀ t ∈ ts, Writable t.kind t.text) :
    ∃ us p, tokenize (render ts) = .ok (us ++ [.eof p]) ∧ us.map content = ts.map content := by
  obtain ⟨us, q, hus, hreadings⟩ := readings_render h
  refine ⟨us, q, tokenize_of_readings hreadings ?_, hus⟩
  intro u hu
  have hmem : u.content ∈ ts.map content := by
    rw [← hus]
    exact List.mem_map_of_mem hu
  obtain ⟨t, ht, heq⟩ := List.mem_map.1 hmem
  have hkind : t.kind = u.kind := congrArg Prod.fst heq
  rw [← hkind]
  exact (h t ht).kind_ne_eof

/-- Brackets and hyphens side by side, a point before a digit, and a string that holds a quote, a line
break and the start of a comment. -/
theorem tokenize_render_mixed :
    let ts : List Token := [⟨.kwLocal, "local", default⟩, ⟨.identifier, "naïve", default⟩,
      ⟨.leftBracket, "[", default⟩, ⟨.leftBracket, "[", default⟩, ⟨.minus, "-", default⟩,
      ⟨.minus, "-", default⟩, ⟨.number, ".5e+3", default⟩, ⟨.dot, ".", default⟩,
      ⟨.number, "5", default⟩, ⟨.string, "\"\n--[[", default⟩]
    (∀ t ∈ ts, Writable t.kind t.text) ∧
      render ts = "local naïve [ [ - - .5e+3 . 5 \"\\\"\\n--[[\"" ∧
      ∃ us p, tokenize (render ts) = .ok (us ++ [.eof p]) ∧ us.map content = ts.map content := by
  intro ts
  have hts : ∀ t ∈ ts, Writable t.kind t.text := by
    simp only [ts, List.forall_mem_cons]
    refine ⟨.spelled rfl (by decide), .identifier (by decide) (by decide), .spelled rfl (by decide),
      .spelled rfl (by decide), .spelled rfl (by decide), .spelled rfl (by decide), .number ?_,
      .spelled rfl (by decide), .number ?_, .string _, nofun⟩
    · exact .point rfl (.exponent rfl (.inl rfl) (.part rfl .nil))
    · exact .digit rfl .nil
  exact ⟨hts, by decide +kernel, tokenize_render hts⟩

end Token

end TypedLua
