import TypedLua.Proofs.Token.Extents

/-!
# Token.Brackets

Where long strings and long comments end.  A long bracket goes on to the first closing bracket of
its own level, whatever other brackets stand in it; one line break after the opening bracket is not
part of its text.  Without a closing bracket all of the text is taken, and that is a fault.

Main statement: `long_bracket_extent`.
-/

namespace TypedLua.Token

open Text

variable {source : String} {p : Position} {cs rest text lineBreak : List Char} {level : Nat}

/-- A line break, or none, that may be written before a text in a long bracket: a text that starts
with a line break has to have one more before it. -/
structure BreakBefore (text lineBreak : List Char) : Prop where
  isBreak : lineBreak = [] ∨ lineBreak = ['\n'] ∨ lineBreak = ['\r', '\n']
  needed : lineBreak = [] → ¬ ['\n'] <+: text ∧ ¬ ['\r', '\n'] <+: text

theorem BreakBefore.leadingBreak_eq (h : BreakBefore text lineBreak) (level : Nat) :
    leadingBreak (lineBreak ++ text ++ closer level) = lineBreak := by
  obtain rfl | rfl | rfl := h.isBreak
  · obtain ⟨hfeed, hreturn⟩ := h.needed rfl
    show leadingBreak (text ++ closer level) = []
    -- a break would have to end inside the text, since a bracket follows it
    unfold leadingBreak
    split
    · next more heq =>
      obtain _ | ⟨c, _ | ⟨d, text⟩⟩ := text <;> simp [closer] at heq
      obtain ⟨rfl, rfl, -⟩ := heq
      exact absurd ⟨text, rfl⟩ hreturn
    · next more heq =>
      obtain _ | ⟨c, text⟩ := text <;> simp [closer] at heq
      obtain ⟨rfl, -⟩ := heq
      exact absurd ⟨text, rfl⟩ hfeed
    · rfl
  · rfl
  · rfl

/-- Without its closer a long bracket does not end. -/
theorem readLong?_eq_none (h : ¬ closer level <:+: text) :
    readLong? level (opener level ++ text) = none := by
  have hnone : ∀ {cs : List Char}, ¬ closer level <:+: cs → splitCloser? level cs = none := by
    intro cs hcs
    induction cs with
    | nil => rfl
    | cons c cs ih =>
      have hpre : ¬ (closer level).isPrefixOf (c :: cs) = true :=
        fun hpre => hcs (List.isPrefixOf_iff_prefix.1 hpre).isInfix
      have hrest := ih fun hinner => hcs (hinner.trans (List.suffix_cons c cs).isInfix)
      rw [splitCloser?, if_neg hpre, hrest]
      rfl
  unfold readLong?
  simp only [List.drop_left]
  rw [hnone fun hinner => h (hinner.trans (List.drop_suffix _ _).isInfix)]
  rfl

theorem readComment?_opener (level : Nat) (cs : List Char) : readComment? (opener level ++ cs) =
    (readLong? level (opener level ++ cs)).map fun t => (t.body, t.rest) := by
  rw [readComment?, longLevel?_opener]

/-- A long bracket is read as one lexeme. -/
theorem read_opener (level : Nat) (cs : List Char) :
    Lexeme.read (opener level ++ cs) = Lexeme.long level (opener level ++ cs) := by
  have hgap : gap (opener level ++ cs) = .reached [] (opener level ++ cs) := rfl
  have hhead : Lexeme.head (opener level ++ cs) = Lexeme.long level (opener level ++ cs) := by
    have hlevel := longLevel?_opener level cs
    unfold opener at hlevel ⊢
    rw [List.cons_append] at hlevel ⊢
    rw [Lexeme.head, if_neg (by decide), if_neg (by decide), hlevel]
  rw [Lexeme.read_of_gap hgap, hhead]
  unfold Lexeme.long
  split <;> rfl

/-- A comment is part of what leads to the next lexeme. -/
theorem read_comment {comment : List Char} (h : readComment? cs = some (comment, rest)) :
    Lexeme.read ('-' :: '-' :: cs) =
      { Lexeme.read rest with lead := '-' :: '-' :: comment ++ (Lexeme.read rest).lead } := by
  have hgap := gap_comment h
  unfold Lexeme.read
  rw [hgap]
  cases gap rest <;> simp [Gap.push]

theorem place_comment {comment : List Char} (h : readComment? cs = some (comment, rest)) :
    (Lexeme.read ('-' :: '-' :: cs)).place p =
      (Lexeme.read rest).place (p.after ('-' :: '-' :: comment)) := by
  rw [read_comment h]
  simp [Lexeme.place, Position.after_append]

/-- A long comment without end is a fault. -/
theorem read_unfinished (h : readComment? cs = none) : Lexeme.read ('-' :: '-' :: cs) =
    ⟨[], '-' :: '-' :: cs, [], .error .unfinishedLongComment⟩ := by
  have hgap : gap ('-' :: '-' :: cs) = .unfinished [] ('-' :: '-' :: cs) := by
    rw [gap, List.length_cons, skipGap, h]
  rw [Lexeme.read, hgap]

/-- **Long brackets end at their first closing bracket.**  Wherever reading comes to an opening
bracket, a line break or none, a text with no closing bracket of the level in it, and the closing
bracket, the string read is that text and ends with that bracket.  After two hyphens the same is a
comment, and reading is as from its end.  Where no closing bracket follows, both take all that is
left and are unfinished. -/
theorem long_bracket_extent (h : Visits source p cs) (level : Nat) :
    (∀ text lineBreak rest, Unclosed level text → BreakBefore text lineBreak →
      (cs = opener level ++ lineBreak ++ text ++ closer level ++ rest →
        Lexeme.StandsAt ⟨[], opener level ++ lineBreak ++ text ++ closer level, rest,
          .ok (.string, String.ofList text)⟩ source p) ∧
      (cs = '-' :: '-' :: (opener level ++ lineBreak ++ text ++ closer level ++ rest) →
        gap cs = (gap rest).push
          ('-' :: '-' :: (opener level ++ lineBreak ++ text ++ closer level)) ∧
        (Lexeme.read rest).place
          (p.after ('-' :: '-' :: (opener level ++ lineBreak ++ text ++ closer level))) ∈
            readings source)) ∧
    (∀ text, ¬ closer level <:+: text →
      (cs = opener level ++ text →
        Lexeme.StandsAt ⟨[], cs, [], .error .unfinishedLongString⟩ source p) ∧
      (cs = '-' :: '-' :: (opener level ++ text) →
        Lexeme.StandsAt ⟨[], cs, [], .error .unfinishedLongComment⟩ source p)) ∧
    LexicalCause.unfinishedLongString.message = "unfinished long string near <eof>" ∧
    LexicalCause.unfinishedLongComment.message = "unfinished long comment near <eof>" := by
  refine ⟨fun text lineBreak rest htext hbreak => ?_, fun text hopen => ⟨?_, ?_⟩, rfl, rfl⟩
  · have hread := htext.readLong? (hbreak.leadingBreak_eq level) rest
    simp only [List.append_assoc] at hread ⊢
    refine ⟨?_, ?_⟩
    · rintro rfl
      exact h.standsAt (by rw [read_opener, Lexeme.long, hread]) (by simp [opener])
    · rintro rfl
      have hcomment :
          readComment? (opener level ++ (lineBreak ++ (text ++ (closer level ++ rest)))) =
            some (opener level ++ (lineBreak ++ (text ++ closer level)), rest) := by
        rw [readComment?_opener, hread]
        rfl
      exact ⟨gap_comment hcomment, place_comment hcomment ▸ h.mem_readings⟩
  · rintro rfl
    exact h.standsAt (by rw [read_opener, Lexeme.long, readLong?_eq_none hopen]) (by simp [opener])
  · rintro rfl
    exact h.standsAt (read_unfinished (by rw [readComment?_opener, readLong?_eq_none hopen]; rfl))
      (by simp)

/-- The first line break is dropped and no other, and a bracket of another level ends nothing. -/
theorem long_bracket_extent_levels : Unclosed 1 ['\n', ']', ']'] ∧
    Lexeme.StandsAt ⟨[], ['[', '=', '[', '\r', '\n', '\n', ']', ']', ']', '=', ']'], [';'],
      .ok (.string, "\n]]")⟩ "[=[\r\n\n]]]=];" .origin := by
  have htext : Unclosed 1 ['\n', ']', ']'] := by
    unfold Unclosed
    decide
  have hextent := (long_bracket_extent (.start : Visits "[=[\r\n\n]]]=];" _ _) 1).1 _ ['\r', '\n']
    [';'] htext ⟨.inr (.inr rfl), by simp⟩
  exact ⟨htext, hextent.1 rfl⟩

end TypedLua.Token
