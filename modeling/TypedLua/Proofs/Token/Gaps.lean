import Mathlib.Data.List.TakeWhile
import TypedLua.Token.Lexeme

/-!
# Token.Gaps

The text that is passed over between tokens stands on its own: read apart from what follows it, it
is passed over to its end.  A blank stays a blank.  A long comment ends with its own bracket, so
what follows it plays no part; a line comment ends with the line, and the line break after it is
passed over as well.

Main statement: `blank_lead`, what is passed over before a token is passed over alone.
-/

namespace TypedLua.Token

/-! ## Long brackets -/

theorem closer_length (level : Nat) : (closer level).length = level + 2 := by
  simp [closer]

theorem longLevel?_opener (level : Nat) (cs : List Char) :
    longLevel? (opener level ++ cs) = some level := by
  have htake : (List.replicate level '=' ++ '[' :: cs).takeWhile (· == '=') =
      List.replicate level '=' := by
    rw [List.takeWhile_append_of_pos (by simp)]
    simp
  have hdrop : (List.replicate level '=' ++ '[' :: cs).dropWhile (· == '=') = '[' :: cs := by
    rw [List.dropWhile_append_of_pos (by simp)]
    simp
  show longLevel? ('[' :: (List.replicate level '=' ++ ['['] ++ cs)) = some level
  rw [List.append_assoc, List.singleton_append]
  unfold longLevel?
  simp [htake, hdrop]

theorem takeWhile_eq_replicate (c : Char) (cs : List Char) :
    cs.takeWhile (· == c) = List.replicate (cs.takeWhile (· == c)).length c := by
  rw [List.eq_replicate_iff]
  refine ⟨rfl, fun x hx => ?_⟩
  simpa using List.mem_takeWhile_imp hx

variable {cs rest : List Char} {level : Nat}

/-- A level is found where an opener of that level stands. -/
theorem longLevel?_eq_some (h : longLevel? cs = some level) :
    ∃ inner, cs = opener level ++ inner := by
  unfold longLevel? at h
  split at h
  · next tail =>
    split at h
    · next inner hdrop =>
      obtain rfl := Option.some.inj h
      refine ⟨inner, ?_⟩
      have htail : tail.takeWhile (· == '=') ++ tail.dropWhile (· == '=') = tail :=
        List.takeWhile_append_dropWhile
      rw [hdrop, takeWhile_eq_replicate] at htail
      rw [← htail]
      simp [opener]
    · cases h
  · cases h

theorem leadingBreak_append {a : List Char} (h : 2 ≤ a.length) (x y : List Char) :
    leadingBreak (a ++ x) = leadingBreak (a ++ y) := by
  match a with
  | c :: d :: a =>
    show leadingBreak (c :: d :: (a ++ x)) = leadingBreak (c :: d :: (a ++ y))
    unfold leadingBreak
    by_cases hcr : c = '\r' <;> by_cases hlf : d = '\n' <;> by_cases hc : c = '\n' <;> simp_all

/-- No closing bracket of the level starts in the text before the one that follows it. -/
def Unclosed (level : Nat) (text : List Char) : Prop :=
  ∀ i < text.length, ¬ closer level <+: (text ++ closer level).drop i

theorem Unclosed.tail {c : Char} (h : Unclosed level (c :: cs)) : Unclosed level cs :=
  fun i hi => h (i + 1) (Nat.succ_lt_succ hi)

/-- The first closer ends the text. -/
theorem Unclosed.splitCloser? (h : Unclosed level cs) (y : List Char) :
    splitCloser? level (cs ++ closer level ++ y) = some (cs, y) := by
  induction cs with
  | nil =>
    have hpre : (closer level).isPrefixOf (closer level ++ y) = true :=
      List.isPrefixOf_iff_prefix.2 ⟨y, rfl⟩
    refine (if_pos hpre).trans ?_
    exact congrArg (fun rest => some ([], rest)) List.drop_left
  | cons c cs ih =>
    -- a bracket that starts at `c` would end inside the one that is found
    have hnot : ¬ (closer level).isPrefixOf (c :: (cs ++ closer level ++ y)) = true := by
      rw [List.isPrefixOf_iff_prefix]
      intro hpre
      refine h 0 (Nat.succ_pos _) (List.prefix_of_prefix_length_le hpre ⟨y, rfl⟩ ?_)
      simp only [List.drop_zero, List.cons_append, List.length_cons, List.length_append]
      omega
    show Token.splitCloser? level (c :: (cs ++ closer level ++ y)) = some (c :: cs, y)
    rw [Token.splitCloser?, if_neg hnot, ih h.tail]
    rfl

/-- There is no closer before the one that is found. -/
theorem unclosed_of_splitCloser? {value : List Char}
    (h : splitCloser? level cs = some (value, rest)) : Unclosed level value := by
  induction cs generalizing value with
  | nil => cases h
  | cons c cs ih =>
    have htext := splitCloser?_eq_some h
    rw [splitCloser?] at h
    split at h
    · obtain ⟨rfl, -⟩ := Prod.mk.inj (Option.some.inj h)
      exact fun i hi => absurd hi (Nat.not_lt_zero i)
    · next hnot =>
      obtain ⟨⟨value', rest'⟩, hsplit, heq⟩ := Option.map_eq_some_iff.1 h
      obtain ⟨rfl, rfl⟩ := Prod.mk.inj heq
      rintro (_ | i) hi hpre
      · exact hnot (List.isPrefixOf_iff_prefix.2 (hpre.trans ⟨_, htext⟩))
      · exact ih hsplit i (Nat.lt_of_succ_lt_succ hi) hpre

theorem Unclosed.readLong? {lineBreak : List Char} (h : Unclosed level cs)
    (hbreak : leadingBreak (lineBreak ++ cs ++ closer level) = lineBreak) (y : List Char) :
    readLong? level (opener level ++ lineBreak ++ cs ++ closer level ++ y) =
      some ⟨opener level ++ lineBreak ++ cs ++ closer level, cs, y⟩ := by
  -- the same line break is dropped: the text up to the closing bracket has two characters
  have hinner : leadingBreak (lineBreak ++ (cs ++ closer level ++ y)) = lineBreak := by
    have hlen : 2 ≤ (lineBreak ++ cs ++ closer level).length := by
      simp only [List.length_append, closer_length]
      omega
    simpa using (leadingBreak_append hlen y []).trans (by rwa [List.append_nil])
  have hbody : opener level ++ lineBreak ++ cs ++ closer level ++ y =
      opener level ++ (lineBreak ++ (cs ++ closer level ++ y)) := by simp
  rw [hbody]
  unfold Token.readLong?
  simp only [List.take_left, List.drop_left, hinner, h.splitCloser?, Option.map_some]

/-- A long bracket is read the same whatever follows it. -/
theorem readLong?_append {t : LongText} (hlevel : longLevel? cs = some level)
    (h : readLong? level cs = some t) (y : List Char) :
    longLevel? (t.body ++ y) = some level ∧
      readLong? level (t.body ++ y) = some { t with rest := y } := by
  obtain ⟨inner, rfl⟩ := longLevel?_eq_some hlevel
  unfold readLong? at h
  simp only [List.take_left, List.drop_left] at h
  obtain ⟨⟨value, rest⟩, hsplit, rfl⟩ := Option.map_eq_some_iff.1 h
  have hinner : leadingBreak inner ++ value ++ closer level ++ rest = inner := by
    rw [List.append_assoc, List.append_assoc, ← List.append_assoc value,
      splitCloser?_eq_some hsplit, leadingBreak_append_drop]
  refine ⟨?_, (unclosed_of_splitCloser? hsplit).readLong? ?_ y⟩
  · simpa using longLevel?_opener level (leadingBreak inner ++ (value ++ (closer level ++ y)))
  · have hlen : 2 ≤ (leadingBreak inner ++ value ++ closer level).length := by
      simp only [List.length_append, closer_length]
      omega
    simpa using (leadingBreak_append hlen [] rest).trans (congrArg leadingBreak hinner)

/-! ## Comments -/

theorem longLevel?_line {a x : List Char} (y : List Char)
    (h : longLevel? (a ++ '\n' :: x) = none) : longLevel? (a ++ '\n' :: y) = none := by
  match a with
  | [] => rfl
  | c :: a =>
    by_cases hc : c = '['
    · subst hc
      -- what decides is the first character after the bracket that is not `=`
      have hdrop : ∀ z : List Char, (a ++ '\n' :: z).dropWhile (· == '=') =
          a.dropWhile (· == '=') ++ '\n' :: z := by
        intro z
        rw [List.dropWhile_append]
        split
        · next hnil =>
          rw [List.isEmpty_iff.1 hnil]
          rfl
        · rfl
      have hopen : ∀ z : List Char, longLevel? ('[' :: (a ++ '\n' :: z)) = none ↔
          ∀ rest, a.dropWhile (· == '=') ++ '\n' :: z ≠ '[' :: rest := by
        intro z
        unfold longLevel?
        simp only [hdrop z]
        split
        · next hz => simp [hz]
        · next hz => simpa using fun rest => hz rest
      refine (hopen y).2 fun rest hrest => ?_
      have hx := (hopen x).1 h
      cases hd : a.dropWhile (· == '=') with
      | nil => simp [hd] at hrest
      | cons d ds =>
        rw [hd] at hrest hx
        obtain ⟨rfl, -⟩ := List.cons.inj hrest
        exact hx _ rfl
    · unfold longLevel?
      split
      · next heq => exact absurd (List.cons.inj heq).1 hc
      · rfl

theorem dropWhile_line (cs : List Char) :
    cs.dropWhile (· != '\n') = [] ∨ ∃ next, cs.dropWhile (· != '\n') = '\n' :: next := by
  induction cs with
  | nil => exact .inl rfl
  | cons c cs ih =>
    by_cases hc : c = '\n'
    · subst hc
      exact .inr ⟨cs, rfl⟩
    · rw [List.dropWhile_cons_of_pos (by simpa using hc)]
      exact ih

/-- So is a comment, if the next character is the same or the comment is long. -/
theorem readComment?_append {comment : List Char} (h : readComment? cs = some (comment, rest))
    (y : List Char) (hy : y.head? = rest.head? ∨ (longLevel? cs).isSome) :
    readComment? (comment ++ y) = some (comment, y) := by
  unfold readComment? at h
  cases hlevel : longLevel? cs with
  | some level =>
    rw [hlevel] at h
    obtain ⟨t, ht, heq⟩ := Option.map_eq_some_iff.1 h
    obtain ⟨rfl, rfl⟩ := Prod.mk.inj heq
    obtain ⟨hlevel', hread⟩ := readLong?_append hlevel ht y
    unfold readComment?
    simp [hlevel', hread]
  | none =>
    rw [hlevel] at h hy
    obtain ⟨rfl, rfl⟩ := Prod.mk.inj (Option.some.inj h)
    have hy : y.head? = (cs.dropWhile (· != '\n')).head? := by simpa using hy
    have hline : ∀ c ∈ cs.takeWhile (· != '\n'), (c != '\n') = true := by
      intro c hc
      exact List.mem_takeWhile_imp (p := (· != '\n')) hc
    have hcs : cs.takeWhile (· != '\n') ++ cs.dropWhile (· != '\n') = cs :=
      List.takeWhile_append_dropWhile
    generalize cs.takeWhile (· != '\n') = line at hline hcs ⊢
    unfold readComment?
    rcases dropWhile_line cs with hrest | ⟨next, hrest⟩
    · -- the line is the last one: nothing may follow it
      rw [hrest, List.append_nil] at hcs
      rw [hrest] at hy
      obtain rfl : y = [] := List.head?_eq_none_iff.1 hy
      rw [List.append_nil, hcs, hlevel]
      rw [hcs] at hline
      simp [List.takeWhile_eq_self_iff.2 hline, List.dropWhile_eq_nil_iff.2 hline]
    · rw [hrest] at hcs hy
      obtain ⟨z, rfl⟩ : ∃ z, y = '\n' :: z := by
        cases y with
        | nil => cases hy
        | cons d z => exact ⟨z, by rw [Option.some.inj hy]⟩
      have hnone : longLevel? (line ++ '\n' :: z) = none := longLevel?_line z (by rw [hcs, hlevel])
      rw [hnone, List.takeWhile_append_of_pos hline, List.dropWhile_append_of_pos hline]
      simp

/-! ## Gaps -/

/-- Fuel for all characters is enough. -/
theorem skipGap_of_le {fuel more : Nat} (hfuel : cs.length ≤ fuel) (hmore : cs.length ≤ more) :
    skipGap fuel cs = skipGap more cs := by
  fun_induction skipGap fuel cs generalizing more with
  | case1 cs =>
    obtain rfl : cs = [] := List.length_eq_zero_iff.1 (Nat.le_zero.1 hfuel)
    cases more <;> rfl
  | case2 => cases more <;> rfl
  | case3 fuel cs comment rest h ih =>
    have htext := congrArg List.length (readComment?_eq_some h)
    simp only [List.length_append, List.length_cons] at htext hfuel hmore
    obtain ⟨more, rfl⟩ : ∃ n, more = n + 1 := ⟨more - 1, by omega⟩
    rw [skipGap, h, ih (by omega) (by omega : rest.length ≤ more)]
  | case4 fuel cs h =>
    cases more with
    | zero => cases hmore
    | succ more => rw [skipGap, h]
  | case5 fuel c cs hdash hblank ih =>
    cases more with
    | zero => cases hmore
    | succ more =>
      rw [skipGap, if_pos hblank, ih (Nat.le_of_succ_le_succ hfuel) (Nat.le_of_succ_le_succ hmore)]
      exact hdash
  | case6 fuel c cs hdash hblank =>
    cases more with
    | zero => cases hmore
    | succ more =>
      rw [skipGap, if_neg hblank]
      exact hdash

/-- A comment is part of the gap. -/
theorem gap_comment {comment : List Char} (h : readComment? cs = some (comment, rest)) :
    gap ('-' :: '-' :: cs) = (gap rest).push ('-' :: '-' :: comment) := by
  have htext := congrArg List.length (readComment?_eq_some h)
  rw [List.length_append] at htext
  rw [gap, List.length_cons, skipGap, h]
  have hle : rest.length ≤ ('-' :: cs).length := by
    rw [List.length_cons]
    omega
  exact congrArg (Gap.push _) (skipGap_of_le hle (Nat.le_refl _))

/-- So is a blank. -/
theorem gap_blank {c : Char} (h : isBlank c = true) : gap (c :: cs) = (gap cs).push [c] := by
  rw [gap, List.length_cons, skipGap, if_pos h]
  · rfl
  · rintro tail rfl
    simp [isBlank] at h

/-- A text that is passed over to its end. -/
def Blank (cs : List Char) : Prop := gap cs = .reached cs []

theorem blank_of_skipGap {fuel : Nat} {skipped : List Char}
    (h : skipGap fuel cs = .reached skipped rest) (hfuel : cs.length ≤ fuel) : Blank skipped := by
  fun_induction skipGap fuel cs generalizing skipped with
  | case1 | case2 | case6 =>
    obtain ⟨rfl, rfl⟩ := Gap.reached.inj h
    rfl
  | case3 fuel cs comment rest' hcomment ih =>
    cases hgap : skipGap fuel rest' with
    | unfinished s c =>
      rw [hgap] at h
      cases h
    | reached s r =>
      rw [hgap] at h
      obtain ⟨rfl, rfl⟩ := Gap.reached.inj h
      have hsplit := readComment?_eq_some hcomment
      have hrest : rest'.length ≤ fuel := by
        rw [← hsplit] at hfuel
        simp only [List.length_cons, List.length_append] at hfuel
        omega
      -- after a line comment the line break is passed over next
      have hhead : s.head? = rest'.head? ∨ (longLevel? cs).isSome := by
        by_cases hlong : (longLevel? cs).isSome
        · exact .inr hlong
        · refine .inl ?_
          have hnone : longLevel? cs = none := by simpa using hlong
          unfold readComment? at hcomment
          rw [hnone] at hcomment
          obtain ⟨-, rfl⟩ := Prod.mk.inj (Option.some.inj hcomment)
          have htext := skipGap_text fuel (cs.dropWhile (· != '\n'))
          rw [hgap, Gap.text_reached] at htext
          rcases dropWhile_line cs with hd | ⟨next, hd⟩
          · rw [hd] at htext
            rw [hd, (List.append_eq_nil_iff.1 htext).1]
          · rw [hd] at hgap hrest
            rw [hd]
            rw [skipGap_of_le hrest (Nat.le_refl _)] at hgap
            have hblank : gap ('\n' :: next) = (gap next).push ['\n'] := gap_blank rfl
            rw [← gap, hblank] at hgap
            cases hnext : gap next with
            | reached s' r' =>
              rw [hnext] at hgap
              obtain ⟨rfl, -⟩ := Gap.reached.inj hgap
              rfl
            | unfinished s' c' =>
              rw [hnext] at hgap
              cases hgap
      show gap ('-' :: '-' :: (comment ++ s)) = _
      rw [gap_comment (readComment?_append hcomment s hhead), ih hgap hrest]
      rfl
  | case4 => cases h
  | case5 fuel c cs hdash hblank ih =>
    cases hgap : skipGap fuel cs with
    | unfinished s d =>
      rw [hgap] at h
      cases h
    | reached s r =>
      rw [hgap] at h
      obtain ⟨rfl, rfl⟩ := Gap.reached.inj h
      show gap (c :: s) = _
      rw [gap_blank hblank, ih hgap (Nat.le_of_succ_le_succ hfuel)]
      rfl

/-- A gap is blanks and comments. -/
theorem blank_of_gap {skipped : List Char} (h : gap cs = .reached skipped rest) : Blank skipped :=
  blank_of_skipGap h (Nat.le_refl _)

theorem head_lead_of_ok {x : Kind × String} (h : (Lexeme.head cs).outcome = .ok x) :
    (Lexeme.head cs).lead = [] := by
  unfold Lexeme.head at h ⊢
  split
  · rfl
  · next c cs =>
    simp only at h ⊢
    split
    · next hquote =>
      rw [if_pos hquote] at h
      unfold Lexeme.quoted at h ⊢
      split
      · rfl
      · rfl
      · next hq =>
        rw [hq] at h
        cases h
    · split
      · exact Lexeme.word_lead ..
      · split
        · unfold Lexeme.long
          split <;> rfl
        · split
          · rfl
          · unfold Lexeme.plain
            split
            · rfl
            · split <;> rfl

/-- What leads to a token is blanks and comments. -/
theorem blank_lead {x : Kind × String} (h : (Lexeme.read cs).outcome = .ok x) :
    Blank (Lexeme.read cs).lead := by
  unfold Lexeme.read at h ⊢
  split
  · next skipped rest hgap =>
    rw [hgap] at h
    have hlead := head_lead_of_ok h
    show Blank (skipped ++ (Lexeme.head rest).lead)
    rw [hlead, List.append_nil]
    exact blank_of_gap hgap
  · next hgap =>
    rw [hgap] at h
    cases h

end TypedLua.Token
