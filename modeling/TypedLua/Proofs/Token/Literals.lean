import Mathlib.Data.Nat.Digits.Defs
import TypedLua.Grammar.Expression
import TypedLua.Proofs.Token.Extents

/-!
# Token.Literals

Which numerals denote numbers.  The form of a numeral is looser than that of a literal: it may have
letters, underscores and several points.  A conversion on its own accepts signs; a numeral never
has one where a literal may not.

Main statement: `number_iff_literal`.
-/

namespace TypedLua

open Text

variable {cs ds : List Char} {c : Char}

namespace Number

/-! ## Literals -/

/-- Decimal digits, at least one. -/
def Digits (cs : List Char) : Prop := cs ≠ [] ∧ ∀ c ∈ cs, c.isDigit = true

/-- A decimal literal without its exponent. -/
inductive Mantissa : List Char → Prop
  | whole {ds : List Char} : Digits ds → Mantissa ds
  | pointed {ds fs : List Char} : Digits ds → (∀ c ∈ fs, c.isDigit = true) →
      Mantissa (ds ++ '.' :: fs)
  | fraction {ds : List Char} : Digits ds → Mantissa ('.' :: ds)

/-- The exponent of a decimal literal. -/
inductive Exponent : List Char → Prop
  | absent : Exponent []
  | unsigned {mark : Char} {ds : List Char} : mark = 'e' ∨ mark = 'E' → Digits ds →
      Exponent (mark :: ds)
  | signed {mark sign : Char} {ds : List Char} : mark = 'e' ∨ mark = 'E' →
      sign = '+' ∨ sign = '-' → Digits ds → Exponent (mark :: sign :: ds)

/-- Hexadecimal digits, at least one, that denote the number. -/
def HexDigits (cs : List Char) (n : Nat) : Prop :=
  cs ≠ [] ∧ ∃ ds : List Nat, cs.map hexDigit? = ds.map some ∧ Nat.ofDigits 16 ds.reverse = n

/-- The text is a literal. -/
inductive Literal : List Char → Prop
  | hex {mark : Char} {cs : List Char} {n : Nat} : mark = 'x' ∨ mark = 'X' → HexDigits cs n →
      n < 2 ^ 64 → Literal ('0' :: mark :: cs)
  | decimal {a b : List Char} : Mantissa a → Exponent b → Literal (a ++ b)

/-! ## Hexadecimal literals -/

theorem foldlM_hexDigit? (cs : List Char) (a n : Nat) :
    cs.foldlM (fun n c => (hexDigit? c).map (16 * n + ·)) a = some n ↔
      ∃ ds : List Nat, cs.map hexDigit? = ds.map some ∧ ds.foldl (16 * · + ·) a = n := by
  induction cs generalizing a with
  | nil =>
    constructor
    · intro h
      cases h
      exact ⟨[], rfl, rfl⟩
    · rintro ⟨ds, hds, rfl⟩
      obtain rfl := List.map_eq_nil_iff.1 hds.symm
      rfl
  | cons c cs ih =>
    rw [List.foldlM_cons]
    constructor
    · intro h
      obtain ⟨b, hb, h⟩ := Option.bind_eq_some_iff.1 h
      obtain ⟨d, hd, rfl⟩ := Option.map_eq_some_iff.1 hb
      obtain ⟨ds, hds, hn⟩ := (ih _).1 h
      exact ⟨d :: ds, by rw [List.map_cons, List.map_cons, hd, hds], hn⟩
    · rintro ⟨ds, hds, hn⟩
      obtain ⟨d, ds, rfl, hd, hds'⟩ := List.map_eq_cons_iff.1 hds.symm
      rw [← hd]
      exact (ih _).2 ⟨ds, hds'.symm, hn⟩

/-- The value of hexadecimal digits is as they are written. -/
theorem hexValue?_eq_some_iff {n : Nat} : hexValue? cs = some n ↔ HexDigits cs n := by
  cases cs with
  | nil => simp [hexValue?, HexDigits]
  | cons c cs =>
    have hfold : ∀ ds : List Nat, ds.foldl (16 * · + ·) 0 = Nat.ofDigits 16 ds.reverse := by
      intro ds
      rw [Nat.ofDigits_eq_foldr, List.foldr_reverse]
      exact congrArg (ds.foldl · 0) (funext₂ fun _ _ => Nat.add_comm _ _)
    rw [hexValue?, foldlM_hexDigit?]
    · simp only [hfold, HexDigits, ne_eq, reduceCtorEq, not_false_eq_true, true_and]
    · exact List.cons_ne_nil _ _

/-- A hexadecimal literal has a value below 2^64. -/
theorem hexLiteral?_isSome_iff (hsign : cs.head? ≠ some '+') :
    (hexLiteral? cs).isSome ↔ ∃ n, HexDigits cs n ∧ n < 2 ^ 64 := by
  have hread : hexLiteral? cs =
      (hexValue? cs).bind fun n => if n < 1 <<< 64 then some n else none := by
    unfold hexLiteral?
    split
    · exact absurd rfl hsign
    · rfl
  rw [hread]
  constructor
  · intro h
    obtain ⟨n, h⟩ := Option.isSome_iff_exists.1 h
    obtain ⟨m, hm, h⟩ := Option.bind_eq_some_iff.1 h
    exact ⟨m, hexValue?_eq_some_iff.1 hm, (Option.ite_none_right_eq_some.1 h).1⟩
  · rintro ⟨n, hn, hlt⟩
    have hbits : n < 1 <<< 64 := hlt
    rw [hexValue?_eq_some_iff.2 hn, Option.bind_some, if_pos hbits]
    rfl

/-! ## Decimal literals -/

namespace Decimal

theorem digits?_isSome_iff : (exponent?.digits? ds).isSome ↔ Digits ds := by
  unfold exponent?.digits? Digits
  split <;> simp_all

theorem exponent?_isSome_iff : (exponent? cs).isSome ↔ Exponent cs := by
  constructor
  · intro h
    unfold exponent? at h
    split at h
    · exact .absent
    · next mark cs =>
      split at h
      · next hmark =>
        have hmark : mark = 'e' ∨ mark = 'E' := by simpa using hmark
        split at h
        · exact .signed hmark (.inl rfl) (digits?_isSome_iff.1 h)
        · rw [Option.isSome_map] at h
          exact .signed hmark (.inr rfl) (digits?_isSome_iff.1 h)
        · exact .unsigned hmark (digits?_isSome_iff.1 h)
      · cases h
  · intro h
    cases h with
    | absent => rfl
    | @unsigned mark ds hmark hds =>
      have hmark : (mark = 'e' || mark = 'E') = true := by simpa using hmark
      unfold exponent?
      dsimp only
      rw [if_pos hmark]
      split
      · exact absurd (hds.2 '+' List.mem_cons_self) (by decide)
      · exact absurd (hds.2 '-' List.mem_cons_self) (by decide)
      · exact digits?_isSome_iff.2 hds
    | @signed mark sign ds hmark hsign hds =>
      have hmark : (mark = 'e' || mark = 'E') = true := by simpa using hmark
      unfold exponent?
      dsimp only
      rw [if_pos hmark]
      rcases hsign with rfl | rfl
      · exact digits?_isSome_iff.2 hds
      · exact Option.isSome_map.symm ▸ digits?_isSome_iff.2 hds

theorem exponent_head (h : Exponent cs) :
    cs.takeWhile Char.isDigit = [] ∧ cs.dropWhile Char.isDigit = cs ∧ cs.head? ≠ some '.' := by
  cases h with
  | absent => exact ⟨rfl, rfl, fun hdot => by cases hdot⟩
  | unsigned hmark _ | signed hmark _ _ => rcases hmark with rfl | rfl <;> simp

theorem isSome_parts (whole fraction rest : List Char) :
    (do
      if whole.isEmpty && fraction.isEmpty then none
      return (⟨whole, fraction, ← exponent? rest⟩ : Decimal)).isSome ↔
      (whole ≠ [] ∨ fraction ≠ []) ∧ Exponent rest := by
  rw [← exponent?_isSome_iff]
  cases whole <;> cases fraction <;> cases exponent? rest <;> simp

theorem parse?_isSome_of_point (hrest : cs.dropWhile Char.isDigit = '.' :: ds) :
    (parse? cs).isSome ↔ (cs.takeWhile Char.isDigit ≠ [] ∨ ds.takeWhile Char.isDigit ≠ []) ∧
      Exponent (ds.dropWhile Char.isDigit) := by
  unfold parse?
  rw [hrest]
  exact isSome_parts _ _ _

theorem parse?_isSome_of_no_point (hrest : (cs.dropWhile Char.isDigit).head? ≠ some '.') :
    (parse? cs).isSome ↔
      cs.takeWhile Char.isDigit ≠ [] ∧ Exponent (cs.dropWhile Char.isDigit) := by
  have hparts := isSome_parts (cs.takeWhile Char.isDigit) [] (cs.dropWhile Char.isDigit)
  rw [or_iff_left (not_not_intro rfl)] at hparts
  rw [← hparts]
  unfold parse?
  generalize cs.dropWhile Char.isDigit = rest at hrest
  dsimp only
  split
  · exact absurd rfl hrest
  · rfl

/-- A decimal literal is a mantissa and an exponent. -/
theorem parse?_isSome_iff :
    (parse? cs).isSome ↔ ∃ a b, cs = a ++ b ∧ Mantissa a ∧ Exponent b := by
  have hdigits : ∀ {cs : List Char}, ∀ c ∈ cs.takeWhile Char.isDigit, c.isDigit = true :=
    fun c hc => List.mem_takeWhile_imp hc
  have hsplit : ∀ {cs : List Char},
      cs = cs.takeWhile Char.isDigit ++ cs.dropWhile Char.isDigit :=
    List.takeWhile_append_dropWhile.symm
  constructor
  · intro h
    by_cases hrest : (cs.dropWhile Char.isDigit).head? = some '.'
    · obtain ⟨ds, hds⟩ := List.head?_eq_some_iff.1 hrest
      obtain ⟨hsome, hexponent⟩ := (parse?_isSome_of_point hds).1 h
      refine ⟨cs.takeWhile Char.isDigit ++ '.' :: ds.takeWhile Char.isDigit, _, ?_, ?_, hexponent⟩
      · rw [List.append_assoc, List.cons_append, ← hsplit, ← hds, ← hsplit]
      · by_cases hwhole : cs.takeWhile Char.isDigit = []
        · rw [hwhole]
          exact .fraction ⟨hsome.resolve_left (not_not_intro hwhole), hdigits⟩
        · exact .pointed ⟨hwhole, hdigits⟩ hdigits
    · obtain ⟨hwhole, hexponent⟩ := (parse?_isSome_of_no_point hrest).1 h
      exact ⟨_, _, hsplit, .whole ⟨hwhole, hdigits⟩, hexponent⟩
  · rintro ⟨a, b, rfl, ha, hb⟩
    obtain ⟨htake, hdrop, hpoint⟩ := exponent_head hb
    -- digits before something that starts with no digit
    have hrun : ∀ {ds rest : List Char}, (∀ c ∈ ds, c.isDigit = true) →
        rest.takeWhile Char.isDigit = [] → rest.dropWhile Char.isDigit = rest →
        (ds ++ rest).takeWhile Char.isDigit = ds ∧ (ds ++ rest).dropWhile Char.isDigit = rest := by
      intro ds rest hds htake hdrop
      rw [List.takeWhile_append_of_pos hds, List.dropWhile_append_of_pos hds, htake, hdrop]
      exact ⟨List.append_nil ds, rfl⟩
    cases ha with
    | whole hds =>
      obtain ⟨hwhole, hrest⟩ := hrun hds.2 htake hdrop
      rw [parse?_isSome_of_no_point (by rwa [hrest]), hwhole, hrest]
      exact ⟨hds.1, hb⟩
    | @pointed ds fs hds hfs =>
      rw [List.append_assoc, List.cons_append]
      obtain ⟨hwhole, hrest⟩ := @hrun ds ('.' :: (fs ++ b)) hds.2 rfl rfl
      obtain ⟨hfraction, hrest'⟩ := hrun hfs htake hdrop
      rw [parse?_isSome_of_point hrest, hwhole, hrest']
      exact ⟨.inl hds.1, hb⟩
    | @fraction ds hds =>
      obtain ⟨hfraction, hrest⟩ := hrun hds.2 htake hdrop
      rw [List.cons_append, parse?_isSome_of_point rfl, hfraction, hrest]
      exact ⟨.inr hds.1, hb⟩

end Decimal

/-! ## Numerals -/

theorem head_of_hex {mark : Char} (hmark : mark = 'x' ∨ mark = 'X')
    (h : Token.Numeral ('0' :: mark :: cs)) : cs.head? ≠ some '+' := by
  intro hsign
  obtain ⟨ds, rfl⟩ := List.head?_eq_some_iff.1 hsign
  cases h with
  | digit _ htail =>
    cases htail with
    | part _ htail =>
      cases htail with
      | part hpart _ => exact absurd hpart (by decide)
      | exponent hexponent _ _ => exact absurd hexponent (by decide)
    | exponent hexponent _ _ =>
      rcases hmark with rfl | rfl <;> exact absurd hexponent (by decide)

/-- A numeral has a value if it is a literal. -/
theorem ofText?_isSome_iff {text : String} (h : Token.Numeral text.toList) :
    (ofText? text).isSome ↔ Literal text.toList := by
  -- nothing that starts like a hexadecimal literal is a decimal one
  have hdecimal : ∀ {mark : Char} {cs : List Char}, mark = 'x' ∨ mark = 'X' →
      ¬ ∃ a b, '0' :: mark :: cs = a ++ b ∧ Mantissa a ∧ Exponent b := by
    intro mark cs hmark hliteral
    have hparse := Decimal.parse?_isSome_iff.2 hliteral
    rw [Decimal.parse?_isSome_of_no_point (by rcases hmark with rfl | rfl <;> simp)] at hparse
    have hexponent := Decimal.exponent?_isSome_iff.2 hparse.2
    rcases hmark with rfl | rfl <;> cases hexponent
  have hhex : ∀ {mark : Char} {cs : List Char}, mark = 'x' ∨ mark = 'X' →
      Token.Numeral ('0' :: mark :: cs) →
      (((hexLiteral? cs).map Binary64.ofNat).isSome ↔ Literal ('0' :: mark :: cs)) := by
    intro mark cs hmark hnumeral
    rw [Option.isSome_map, hexLiteral?_isSome_iff (head_of_hex hmark hnumeral)]
    constructor
    · rintro ⟨n, hn, hlt⟩
      exact .hex hmark hn hlt
    · intro hliteral
      generalize hcs : '0' :: mark :: cs = text at hliteral
      cases hliteral with
      | hex _ hn hlt =>
        cases hcs
        exact ⟨_, hn, hlt⟩
      | decimal ha hb => exact absurd ⟨_, _, hcs, ha, hb⟩ (hdecimal hmark)
  unfold ofText?
  split
  · next htext => exact htext ▸ hhex (.inl rfl) (htext ▸ h)
  · next htext => exact htext ▸ hhex (.inr rfl) (htext ▸ h)
  · next hx hX =>
    rw [Option.isSome_map, Decimal.parse?_isSome_iff]
    constructor
    · rintro ⟨a, b, htext, ha, hb⟩
      rw [htext]
      exact .decimal ha hb
    · intro hliteral
      generalize text.toList = cs at hliteral hx hX
      cases hliteral with
      | hex hmark _ _ =>
        rcases hmark with rfl | rfl
        · exact absurd rfl (hx _)
        · exact absurd rfl (hX _)
      | decimal ha hb => exact ⟨_, _, rfl, ha, hb⟩

end Number

namespace Token

theorem Lexeme.numeral_of_head {text : String} (h : (head cs).outcome = .ok (.number, text)) :
    Numeral text.toList := by
  unfold head at h
  split at h
  · cases h
  split at h
  · unfold quoted at h
    split at h <;> cases h
  split at h
  · next hc =>
    rw [word_eq hc] at h
    have hkind : tableKind _ = .number := congrArg Prod.fst (Except.ok.inj h)
    exact absurd (hkind ▸ tableKind_mem _) (by decide)
  split at h
  · unfold long at h
    split at h <;> cases h
  split at h
  · cases h
  unfold plain at h
  split at h
  · next hnumeral =>
    cases h
    rw [String.toList_ofList]
    exact numeral_of_numeral? hnumeral
  · split at h
    · next hsymbol =>
      cases h
      exact absurd (symbol?_eq_some hsymbol).1 (by decide)
    · cases h

/-- The text of a number token is a numeral. -/
theorem numeral_of_mem_readings {source : String} {t : Token} (h : .ok t ∈ readings source)
    (hkind : t.kind = .number) : Numeral t.text.toList := by
  obtain ⟨p, ht | ⟨cs, ht⟩⟩ := mem_readings_cases h
  · cases ht
    cases hkind
  · unfold Lexeme.place at ht
    dsimp only at ht
    split at ht
    · next kind text houtcome =>
      cases ht
      obtain rfl : kind = .number := hkind
      unfold Lexeme.read at houtcome
      split at houtcome
      · exact Lexeme.numeral_of_head houtcome
      · cases houtcome
    · cases ht

/-- **Number tokens are converted exactly when they are well formed**: a numeral of any text denotes
a number if and only if it is `0x` or `0X` with hexadecimal digits below `2 ^ 64`, or a decimal
literal; any other is refused in its whole text. -/
theorem number_iff_literal {source : String} {t : Token} (h : .ok t ∈ readings source)
    (hkind : t.kind = .number) (span : Span) :
    ((∃ x, Grammar.numberOf t.text span = .ok x) ↔ Number.Literal t.text.toList) ∧
      (¬ Number.Literal t.text.toList →
        Grammar.numberOf t.text span = .error ⟨span, .malformedNumber t.text⟩ ∧
        (Cause.malformedNumber t.text).message =
          "unable to convert '" ++ t.text ++ "' to a number") := by
  rw [← Number.ofText?_isSome_iff (numeral_of_mem_readings h hkind)]
  unfold Grammar.numberOf
  cases Number.ofText? t.text with
  | some x => simp
  | none => exact ⟨by simp, fun _ => ⟨rfl, rfl⟩⟩

/-- A numeral with a sign after an `e` that is a digit, which denotes nothing. -/
theorem number_iff_literal_signed :
    let t : Token := ⟨.number, "0xe+1", ⟨.origin, Position.origin.after "0xe+1".toList⟩⟩
    .ok t ∈ readings "0xe+1" ∧ ¬ Number.Literal t.text.toList ∧
      Grammar.numberOf t.text t.span = .error ⟨t.span, .malformedNumber "0xe+1"⟩ := by
  intro t
  have ht : .ok t ∈ readings "0xe+1" := by decide +kernel
  obtain ⟨hiff, hfault⟩ := number_iff_literal ht rfl t.span
  have hnone : Number.ofText? "0xe+1" = none := by decide +kernel
  have hliteral : ¬ Number.Literal t.text.toList := by
    intro hliteral
    obtain ⟨x, hx⟩ := hiff.2 hliteral
    unfold Grammar.numberOf at hx
    rw [show t.text = "0xe+1" from rfl, hnone] at hx
    cases hx
  exact ⟨ht, hliteral, (hfault hliteral).1⟩

end Token

end TypedLua
