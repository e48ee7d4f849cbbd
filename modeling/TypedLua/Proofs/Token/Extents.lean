import TypedLua.Proofs.Token.Rendering

/-!
# Token.Extents

How far tokens go.  Wherever reading a text comes to, a word takes all characters that continue it,
and a symbol or a numeral is the longest piece of the text that has such a form.  Words can be read
on two paths, by a table of ASCII words or character by character, with the same outcome.

Main statements: `word_classified` for words and `longest_munch` for symbols and numerals.
-/

namespace TypedLua

open Text

namespace Token

/-! ## Places that reading comes to -/

/-- Reading the text comes to the position, with `cs` left to be read. -/
inductive Visits (source : String) : Position → List Char → Prop
  | start : Visits source .origin source.toList
  | step {p : Position} {cs : List Char} : Visits source p cs →
      (Lexeme.read cs).outcome ≠ .ok (.eof, "") →
      Visits source ((Lexeme.read cs).place p).stop (Lexeme.read cs).rest

variable {source : String} {p : Position} {cs rest lead : List Char} {c : Char} {k : Kind}

theorem readingsFrom_step (h : (Lexeme.read cs).outcome ≠ .ok (.eof, "")) (fuel : Nat)
    (p : Position) : readingsFrom (fuel + 1) p cs = (Lexeme.read cs).place p ::
      readingsFrom fuel ((Lexeme.read cs).place p).stop (Lexeme.read cs).rest := by
  rw [readingsFrom]
  split
  · next text heof =>
    obtain ⟨-, hbody⟩ := Lexeme.read_spelled cs _ _ heof
    exact absurd (Lexeme.read_of_body_eq_nil (hbody rfl)).2 h
  · rfl

theorem Visits.readings_suffix (h : Visits source p cs) :
    ∃ fuel, cs.length ≤ fuel ∧ readingsFrom fuel p cs <:+ readings source := by
  induction h with
  | start => exact ⟨_, Nat.le_refl _, List.suffix_refl _⟩
  | @step p cs _ houtcome ih =>
    obtain ⟨fuel, hfuel, hsuffix⟩ := ih
    have hrest := Lexeme.rest_length_lt houtcome
    obtain ⟨fuel, rfl⟩ : ∃ n, fuel = n + 1 := ⟨fuel - 1, by omega⟩
    rw [readingsFrom_step houtcome] at hsuffix
    exact ⟨fuel, by omega, (List.suffix_cons _ _).trans hsuffix⟩

/-- What is read where the lexer stops is a reading of the text. -/
theorem Visits.mem_readings (h : Visits source p cs) :
    (Lexeme.read cs).place p ∈ readings source := by
  obtain ⟨fuel, hfuel, hsuffix⟩ := h.readings_suffix
  refine hsuffix.subset ?_
  cases fuel with
  | zero =>
    obtain rfl : cs = [] := List.length_eq_zero_iff.1 (Nat.le_zero.1 hfuel)
    exact List.mem_singleton_self _
  | succ fuel =>
    rw [readingsFrom]
    split
    · exact List.mem_singleton_self _
    · exact List.mem_cons_self

/-- The lexeme is what the text reads at the position, and reading goes on after it. -/
structure Lexeme.StandsAt (l : Lexeme) (source : String) (p : Position) : Prop where
  mem : l.place p ∈ readings source
  rest : Visits source (l.place p).stop l.rest

theorem Visits.standsAt (h : Visits source p cs) {l : Lexeme} (hread : Lexeme.read cs = l)
    (hbody : l.body ≠ []) : l.StandsAt source p := by
  subst hread
  exact ⟨h.mem_readings, h.step fun heof => hbody ((Lexeme.read_spelled cs _ _ heof).2 rfl)⟩

theorem Lexeme.read_of_gap (h : gap cs = .reached lead rest) :
    Lexeme.read cs = { head rest with lead := lead ++ (head rest).lead } := by
  rw [Lexeme.read, h]

/-! ## Words -/

theorem word_maximal (cs : List Char) :
    ∀ d ∈ (cs.dropWhile isWordPart).head?, isWordPart d = false := by
  intro d hd
  have hstop := List.head?_dropWhile_not isWordPart cs
  rw [Option.mem_def.1 hd] at hstop
  simpa using hstop

/-- The kind of a word is a keyword if the word spells it. -/
theorem tableKind_eq_iff (hk : k ∈ Kind.keywords) (word : String) :
    Lexeme.tableKind word = k ↔ Kind.keyword? word = some k := by
  rw [Lexeme.tableKind, Lexeme.lookup_tableWords]
  cases hword : Kind.keyword? word with
  | some j => simp
  | none =>
    have hne : k ≠ .identifier := by
      rintro rfl
      exact absurd hk (by decide)
    simpa using hne.symm

/-- **Words are classified the same way on both paths.**  Wherever a word starts, it is the longest
run of characters that continue it, whether the table reads it or it is read character by character.
It is the keyword that it spells, which is the keyword that looking it up gives, and an identifier
if it spells none. -/
theorem word_classified (h : Visits source p cs) (hgap : gap cs = .reached lead (c :: rest))
    (hstart : isWordStart c = true) :
    ∃ run after kind, run ++ after = c :: rest ∧ (∀ d ∈ run, isWordPart d = true) ∧
      (∀ d ∈ after.head?, isWordPart d = false) ∧
      Lexeme.read cs = ⟨lead, run, after, .ok (kind, String.ofList run)⟩ ∧
      Lexeme.StandsAt ⟨lead, run, after, .ok (kind, String.ofList run)⟩ source p ∧
      (if isAscii c then Lexeme.tableWord (c :: rest) else Lexeme.runWord (c :: rest)) =
        ⟨[], run, after, .ok (kind, String.ofList run)⟩ ∧
      (∀ k : Kind, k.isKeyword = true → (kind = k ↔ k.text? = some (String.ofList run)) ∧
        (k.text? = some (String.ofList run) ↔ Kind.keyword? (String.ofList run) = some k)) ∧
      (Kind.keyword? (String.ofList run) = none → kind = .identifier) ∧
      kind.isKeyword = (Kind.keyword? (String.ofList run)).isSome := by
  have hword := Lexeme.word_eq hstart rest
  have hread : Lexeme.read cs = { Lexeme.word c rest with lead := lead } := by
    rw [Lexeme.read_of_gap hgap, Lexeme.head_of_isWordStart hstart, Lexeme.word_lead]
    simp
  rw [hword] at hread
  refine ⟨(c :: rest).takeWhile isWordPart, (c :: rest).dropWhile isWordPart, _,
    List.takeWhile_append_dropWhile, fun d hd => List.mem_takeWhile_imp hd, word_maximal _, hread,
    h.standsAt hread (by simp [isWordPart_of_isWordStart hstart]), hword, fun k hk => ?_,
    fun hnone => ?_, ?_⟩
  · have hk := Kind.isKeyword_iff_mem.1 hk
    simp only [tableKind_eq_iff hk, Kind.keyword?_eq_some_iff, hk, true_and, and_self]
  · rw [Lexeme.tableKind, Lexeme.lookup_tableWords, hnone]
    rfl
  · rw [Lexeme.tableKind, Lexeme.lookup_tableWords]
    cases hkeyword : Kind.keyword? (String.ofList ((c :: rest).takeWhile isWordPart)) with
    | none => rfl
    | some j => exact Kind.isKeyword_iff_mem.2 (Kind.keyword?_eq_some_iff.1 hkeyword).1

/-- A keyword that goes on with a letter beyond ASCII is no keyword. -/
theorem word_classified_keyword_head :
    Lexeme.StandsAt ⟨[' '], ['e', 'n', 'd', 'é'], [], .ok (.identifier, "endé")⟩ " endé" .origin := by
  obtain ⟨run, after, kind, -, -, -, hread, hstands, -⟩ :=
    word_classified (.start : Visits " endé" _ _) rfl (by decide)
  rwa [← hread] at hstands

/-! ## Symbols and numerals -/

/-- The text is spelled like a symbol of the kind, or has the form of a numeral. -/
inductive Plain : Kind → List Char → Prop
  | symbol {k : Kind} {text : String} : k ∈ Kind.symbols → k.text? = some text →
      Plain k text.toList
  | numeral {cs : List Char} : Numeral cs → Plain .number cs

/-- Longer symbols are tried first. -/
theorem symbols_pairwise : Kind.symbols.Pairwise fun j k =>
    (k.text?.map (·.toList.length)).getD 0 ≤ (j.text?.map (·.toList.length)).getD 0 := by decide

/-- No symbol at a place is longer than the one that is read. -/
theorem Lexeme.symbol?_longest {text : String} (hk : k ∈ Kind.symbols)
    (htext : k.text? = some text) (hcs : text.toList <+: cs) :
    ∃ j spelled, symbol? cs = some (j, spelled) ∧ text.toList.length ≤ spelled.toList.length := by
  have htried : (k.text?.bind fun t =>
      if t.toList.isPrefixOf cs then some (k, t) else none) ≠ none := by
    simpa [htext] using hcs
  have hfound : symbol? cs ≠ none := fun hnone => htried (List.findSome?_eq_none_iff.1 hnone k hk)
  obtain ⟨⟨j, spelled⟩, hsymbol⟩ := Option.ne_none_iff_exists'.1 hfound
  refine ⟨j, spelled, hsymbol, ?_⟩
  obtain ⟨before, _, after, hsymbols, hj, hbefore⟩ := List.findSome?_eq_some_iff.1 hsymbol
  obtain ⟨t, ht, hif⟩ := Option.bind_eq_some_iff.1 hj
  obtain ⟨-, ⟨⟩⟩ := Option.ite_none_right_eq_some.1 hif
  -- what stands before the symbol that is found is no head of the text
  have hlater : k ∈ j :: after := by
    have hmem : k ∈ before ++ j :: after := hsymbols ▸ hk
    exact (List.mem_append.1 hmem).resolve_left fun hearlier => htried (hbefore k hearlier)
  rcases List.mem_cons.1 hlater with rfl | hafter
  · rw [Option.some.inj (htext.symm.trans ht)]
  · have hsorted := symbols_pairwise
    rw [hsymbols, List.pairwise_append, List.pairwise_cons] at hsorted
    simpa [htext, ht] using hsorted.2.1.1 k hafter

theorem NumeralTail.length_le {tail : List Char} (h : NumeralTail tail) (htail : tail <+: cs)
    (mark : Bool) : tail.length ≤ (numeralTail mark cs).1.length := by
  obtain ⟨rest, rfl⟩ := htail
  induction h generalizing mark with
  | nil => exact Nat.zero_le _
  | part hc _ ih => simpa [numeralTail, hc] using ih _
  | @exponent mark' sign cs hmark hsign _ ih =>
    have hpart : isNumeralPart mark' = true := isNumeralPart_of_isExponentMark hmark
    rcases hsign with rfl | rfl <;> simpa [numeralTail, hpart, hmark] using ih _

theorem numeralTail_form (cs : List Char) : NumeralTail (numeralTail false cs).1 ∧
    ∀ mark, isExponentMark mark = true → NumeralTail (mark :: (numeralTail true cs).1) := by
  induction cs with
  | nil =>
    exact ⟨.nil, fun mark hmark => .part (isNumeralPart_of_isExponentMark hmark) .nil⟩
  | cons c cs ih =>
    have hpart : isNumeralPart c = true →
        NumeralTail (c :: (numeralTail (isExponentMark c) cs).1) := by
      intro hc
      cases hmark : isExponentMark c with
      | false => exact .part hc ih.1
      | true => exact ih.2 c hmark
    refine ⟨?_, fun mark hmark => ?_⟩
    · rw [numeralTail]
      split
      · next hc => exact hpart (by simpa using hc)
      · exact .nil
    · rw [numeralTail]
      split
      · next hc =>
        rcases Bool.or_eq_true _ _ ▸ hc with hc | hsign
        · exact .part (isNumeralPart_of_isExponentMark hmark) (hpart hc)
        · have hsign : c = '+' ∨ c = '-' := by simpa using hsign
          have hplain : isExponentMark c = false := by rcases hsign with rfl | rfl <;> rfl
          rw [hplain]
          exact .exponent hmark hsign ih.1
      · exact .part (isNumeralPart_of_isExponentMark hmark) .nil

theorem numeral_of_numeral? {body : List Char} (h : numeral? cs = some (body, rest)) :
    Numeral body := by
  unfold numeral? at h
  split at h
  · obtain ⟨hd, ⟨⟩⟩ := Option.ite_none_right_eq_some.1 h
    exact .point hd (numeralTail_form _).1
  · obtain ⟨hd, ⟨⟩⟩ := Option.ite_none_right_eq_some.1 h
    exact .digit hd (numeralTail_form _).1
  · cases h

/-- No numeral at a place is longer than the one that is read. -/
theorem Numeral.numeral?_longest {body : List Char} (h : Numeral body) (hcs : body <+: cs) :
    ∃ body' rest, numeral? cs = some (body', rest) ∧ body.length ≤ body'.length := by
  obtain ⟨more, rfl⟩ := hcs
  cases h with
  | @digit d tail hd htail =>
    refine ⟨d :: (numeralTail false (tail ++ more)).1, (numeralTail false (tail ++ more)).2, ?_,
      Nat.succ_le_succ (htail.length_le (List.prefix_append _ _) _)⟩
    rw [List.cons_append]
    unfold numeral?
    split
    · next heq =>
      obtain ⟨rfl, -⟩ := List.cons.inj heq
      exact absurd hd (by decide)
    · next heq =>
      obtain ⟨rfl, rfl⟩ := List.cons.inj heq
      rw [if_pos hd]
    · next heq => cases heq
  | @point d tail hd htail =>
    refine ⟨'.' :: d :: (numeralTail false (tail ++ more)).1, (numeralTail false (tail ++ more)).2,
      by simp [numeral?, hd], ?_⟩
    simpa using htail.length_le (List.prefix_append _ more) false

theorem symbol_length_le {body : List Char} {text : String} (hk : k ∈ Kind.symbols)
    (htext : k.text? = some text) (hnumeral : Numeral body) (hcs : text.toList <+: cs)
    (hbody : body <+: cs) : text.toList.length ≤ body.length := by
  have hall : ∀ k ∈ Kind.symbols,
      k.text?.all (fun t => t.toList.all fun c => !c.isDigit) = true := by decide
  have hdigits : ∀ d ∈ text.toList, d.isDigit = false := by
    have hspelled := hall k hk
    rw [htext, Option.all_some, List.all_eq_true] at hspelled
    exact fun d hd => by simpa using hspelled d hd
  rcases List.prefix_or_prefix_of_prefix hcs hbody with hle | hle
  · exact hle.length_le
  · -- the numeral would be part of the symbol, with its digit
    cases hnumeral with
    | digit hd _ => exact absurd hd (by simp [hdigits _ (hle.subset List.mem_cons_self)])
    | point hd _ =>
      exact absurd hd (by simp [hdigits _ (hle.subset (List.mem_cons_of_mem _ List.mem_cons_self))])

/-- Numerals and symbols are as long as can be, or nothing fits. -/
theorem Lexeme.plain_longest (c : Char) (rest : List Char) :
    ∃ body after outcome, body ++ after = c :: rest ∧ plain c rest = ⟨[], body, after, outcome⟩ ∧
      ((∃ kind, outcome = .ok (kind, String.ofList body) ∧ Plain kind body ∧
        ∀ k other, Plain k other → other <+: c :: rest → other.length ≤ body.length) ∨
      (outcome = .error (.unexpectedCharacter c) ∧ body = [c] ∧
        ∀ k other, Plain k other → ¬ other <+: c :: rest)) := by
  cases hnumeral : numeral? (c :: rest) with
  | some found =>
    have hform := numeral_of_numeral? hnumeral
    refine ⟨found.1, found.2, _, numeral?_eq_some hnumeral, by rw [plain, hnumeral],
      .inl ⟨_, rfl, .numeral hform, fun k other hother hcs => ?_⟩⟩
    cases hother with
    | symbol hk htext =>
      exact symbol_length_le hk htext hform hcs ⟨_, numeral?_eq_some hnumeral⟩
    | numeral hother =>
      obtain ⟨body', rest', hlongest, hle⟩ := hother.numeral?_longest hcs
      rw [hnumeral] at hlongest
      rwa [Option.some.inj hlongest]
  | none =>
    have hnone : ∀ other, Numeral other → ¬ other <+: c :: rest := by
      intro other hother hcs
      obtain ⟨body', rest', hlongest, -⟩ := hother.numeral?_longest hcs
      cases hnumeral.symm.trans hlongest
    cases hsymbol : symbol? (c :: rest) with
    | some found =>
      obtain ⟨kind, text⟩ := found
      obtain ⟨hk, htext, after, hafter⟩ := symbol?_eq_some hsymbol
      refine ⟨text.toList, after, _, hafter, ?_, .inl ⟨kind, rfl, .symbol hk htext, ?_⟩⟩
      · have hdrop : (c :: rest).drop text.toList.length = after := by rw [← hafter, List.drop_left]
        simp only [plain, hnumeral, hsymbol, hdrop, String.ofList_toList]
      · intro k other hother hcs
        cases hother with
        | symbol hk' htext' =>
          obtain ⟨j, spelled, hlongest, hle⟩ := symbol?_longest hk' htext' hcs
          rw [hsymbol] at hlongest
          rwa [(Prod.mk.inj (Option.some.inj hlongest)).2]
        | numeral hother => exact absurd hcs (hnone _ hother)
    | none =>
      refine ⟨[c], rest, _, rfl, by rw [plain, hnumeral, hsymbol], .inr ⟨rfl, rfl, ?_⟩⟩
      intro k other hother hcs
      cases hother with
      | symbol hk htext =>
        obtain ⟨j, spelled, hlongest, -⟩ := symbol?_longest hk htext hcs
        cases hsymbol.symm.trans hlongest
      | numeral hother => exact hnone _ hother hcs

/-- **Symbols and numerals are as long as can be.**  Past a gap, where no word, no string and no
long bracket starts, the longest head of the text that is a symbol or a numeral is read.  Where the
text starts with none, its first character is at fault, and reading goes on after it. -/
theorem longest_munch (h : Visits source p cs) (hgap : gap cs = .reached lead (c :: rest))
    (hword : isWordStart c = false) (hquote : ¬ (c = '\'' ∨ c = '"'))
    (hlong : ∀ level, ¬ opener level <+: c :: rest) (hdelimiter : ¬ ['[', '='] <+: c :: rest) :
    ∃ body after outcome, body ++ after = c :: rest ∧
      Lexeme.read cs = ⟨lead, body, after, outcome⟩ ∧
      Lexeme.StandsAt ⟨lead, body, after, outcome⟩ source p ∧
      ((∃ kind, outcome = .ok (kind, String.ofList body) ∧ Plain kind body ∧
        ∀ k other, Plain k other → other <+: c :: rest → other.length ≤ body.length) ∨
      (outcome = .error (.unexpectedCharacter c) ∧ body = [c] ∧
        ∀ k other, Plain k other → ¬ other <+: c :: rest)) := by
  have hlevel : longLevel? (c :: rest) = none := by
    rw [Option.eq_none_iff_forall_ne_some]
    intro level hlevel
    obtain ⟨inner, hinner⟩ := longLevel?_eq_some hlevel
    exact hlong level ⟨inner, hinner.symm⟩
  have hopen : ¬ (c = '[' ∧ rest.head? = some '=') := by
    rintro ⟨rfl, hhead⟩
    obtain ⟨more, rfl⟩ := List.head?_eq_some_iff.1 hhead
    exact hdelimiter ⟨more, rfl⟩
  obtain ⟨body, after, outcome, hbody, hplain, hcases⟩ := Lexeme.plain_longest c rest
  have hread : Lexeme.read cs = ⟨lead, body, after, outcome⟩ := by
    rw [Lexeme.read_of_gap hgap, Lexeme.head_eq_plain hquote hword hlevel hopen, hplain]
    simp
  have hne : body ≠ [] := by simpa [hplain] using Lexeme.plain_body_ne_nil c rest
  exact ⟨body, after, outcome, hbody, hread, h.standsAt hread hne, hcases⟩

/-- Three points and an equals sign are two symbols, since none is longer than the first. -/
theorem longest_munch_points :
    Lexeme.StandsAt ⟨[], ['.', '.', '.'], ['='], .ok (.ellipsis, "...")⟩ "...=" .origin := by
  obtain ⟨body, after, outcome, -, hread, hstands, -⟩ :=
    longest_munch (.start : Visits "...=" _ _) rfl (by decide) (by decide)
      (fun level hlevel => by cases hlevel with | _ r hr => cases hr) (by decide)
  rwa [← hread] at hstands

end Token

end TypedLua
