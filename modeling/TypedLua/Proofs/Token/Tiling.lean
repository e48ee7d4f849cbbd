import TypedLua.Proofs.Token.Gaps
import TypedLua.Token.Stream

/-!
# Token.Tiling

Readings tile their text: the text is a gap, the body of the first reading, a gap, the body of the
second, and so on, and ends with a gap.  Where all readings are tokens, the tokens stand in order
without overlap, each one spells what is written under it unless it is a string, and whatever lies
between them reads as no token at all.

Main statements: `readings_tiles`, `slice?_of_mem_readings` and `tokenize_tiling`.
-/

namespace TypedLua

open Text

/-! ## Cuts at the seams -/

namespace Text

theorem byteLength_pos {cs : List Char} (h : cs ≠ []) : 0 < byteLength cs := by
  cases cs with
  | nil => exact absurd rfl h
  | cons c cs =>
    have hc := c.utf8Size_pos
    simp only [byteLength_cons]
    omega

theorem splitAtByte?_append (a b : List Char) :
    splitAtByte? (byteLength a) (a ++ b) = some (a, b) := by
  induction a with
  | nil => simp [splitAtByte?]
  | cons c a ih =>
    have hc := c.utf8Size_pos
    obtain ⟨n, hn⟩ : ∃ n, byteLength (c :: a) = n + 1 :=
      ⟨byteLength (c :: a) - 1, by simp only [byteLength_cons]; omega⟩
    have hsize : c.utf8Size ≤ n + 1 := by
      rw [← hn, byteLength_cons]
      omega
    have hrest : n + 1 - c.utf8Size = byteLength a := by
      rw [← hn, byteLength_cons]
      omega
    rw [hn, List.cons_append, splitAtByte?, if_pos hsize, hrest, ih]
    rfl

theorem sliceBytes?_append (a b c : List Char) :
    sliceBytes? (byteLength a) (byteLength a + byteLength b) (a ++ b ++ c) = some b := by
  have hfirst : splitAtByte? (byteLength a) (a ++ b ++ c) = some (a, b ++ c) := by
    rw [List.append_assoc]
    exact splitAtByte?_append a (b ++ c)
  unfold sliceBytes?
  rw [if_neg (by omega), hfirst]
  simp [splitAtByte?_append b c]

end Text

variable {before : List Char} {t : Token}

namespace Token

/-! ## Words -/

namespace Lexeme

/-- The table of ASCII tokens lists the keywords, each under its spelling. -/
theorem lookup_tableWords (word : String) : tableWords.lookup word = Kind.keyword? word := by
  ext k
  rw [Kind.keyword?_eq_some_iff]
  exact Kind.lookup_eq_some_iff (by decide) (by decide)

/-- A word is an identifier or a keyword. -/
theorem tableKind_mem (word : String) : tableKind word ∈ .identifier :: Kind.keywords := by
  rw [tableKind, lookup_tableWords]
  cases hword : Kind.keyword? word with
  | none => exact List.mem_cons_self
  | some k => exact List.mem_cons_of_mem _ (Kind.keyword?_eq_some_iff.1 hword).1

/-- No keyword goes beyond ASCII. -/
theorem tableKind_of_not_ascii {c : Char} {word : List Char} (hc : c ∈ word)
    (hascii : ¬ isAscii c = true) : tableKind (String.ofList word) = .identifier := by
  have hall : ∀ k ∈ Kind.keywords, k.text?.all (fun text => text.toList.all isAscii) = true := by
    decide
  have hnone : Kind.keyword? (String.ofList word) = none := by
    rw [Option.eq_none_iff_forall_ne_some]
    intro k hk
    obtain ⟨hmem, htext⟩ := Kind.keyword?_eq_some_iff.1 hk
    have hspelled := hall k hmem
    rw [htext, Option.all_some, String.toList_ofList, List.all_eq_true] at hspelled
    exact hascii (hspelled c hc)
  rw [tableKind, lookup_tableWords, hnone]
  rfl

/-- Words are read alike by the table and character by character: a word is as long as can be, and
of the kind that the table has for all of it. -/
theorem word_eq {c : Char} (hc : isWordStart c = true) (cs : List Char) :
    word c cs = ⟨[], (c :: cs).takeWhile isWordPart, (c :: cs).dropWhile isWordPart,
      .ok (tableKind (String.ofList ((c :: cs).takeWhile isWordPart)),
        String.ofList ((c :: cs).takeWhile isWordPart))⟩ := by
  have hrun : ∀ {d : Char}, d ∈ (c :: cs).takeWhile isWordPart → ¬ isAscii d = true →
      runWord (c :: cs) = ⟨[], (c :: cs).takeWhile isWordPart, (c :: cs).dropWhile isWordPart,
        .ok (tableKind (String.ofList ((c :: cs).takeWhile isWordPart)),
          String.ofList ((c :: cs).takeWhile isWordPart))⟩ := by
    intro d hd hascii
    rw [tableKind_of_not_ascii hd hascii]
    rfl
  have hfirst : c ∈ (c :: cs).takeWhile isWordPart := by simp [isWordPart_of_isWordStart hc]
  unfold word
  split
  · have hsplit : (c :: cs).takeWhile (fun c => isAscii c && isWordPart c) ++
        (c :: cs).dropWhile (fun c => isAscii c && isWordPart c) = c :: cs :=
      List.takeWhile_append_dropWhile
    have hbody : ∀ d ∈ (c :: cs).takeWhile (fun c => isAscii c && isWordPart c),
        isWordPart d = true :=
      fun d hd => (Bool.and_eq_true _ _ ▸ List.mem_takeWhile_imp hd : _ ∧ _).2
    have hstop := List.head?_dropWhile_not (fun c => isAscii c && isWordPart c) (c :: cs)
    unfold tableWord
    generalize (c :: cs).takeWhile (fun c => isAscii c && isWordPart c) = body at *
    generalize (c :: cs).dropWhile (fun c => isAscii c && isWordPart c) = rest at *
    dsimp only
    split
    · next hmore =>
      -- the table stopped at a character beyond ASCII
      cases rest with
      | nil => cases hmore
      | cons d rest =>
        rw [Bool.and_eq_true] at hmore
        have hd : isAscii d = false ∧ isWordPart d = true := by simpa using hmore.1
        refine hrun (d := d) ?_ (by simp [hd.1])
        rw [← hsplit, List.takeWhile_append_of_pos hbody]
        simp [hd.2]
    · next hmore =>
      have hkind : (tableKind (String.ofList body) == .identifier ||
          (tableKind (String.ofList body)).isKeyword) = true := by
        rcases List.mem_cons.1 (tableKind_mem (String.ofList body)) with hkind | hkind
        · rw [hkind]
          rfl
        · rw [Kind.isKeyword_iff_mem.2 hkind, Bool.or_true]
      have hend : rest.takeWhile isWordPart = [] ∧ rest.dropWhile isWordPart = rest := by
        cases rest with
        | nil => exact ⟨rfl, rfl⟩
        | cons d rest =>
          have hd : isWordPart d = false := by
            rw [hkind, Bool.and_true] at hmore
            cases hascii : isAscii d <;> simp_all
          simp [hd]
      rw [← hsplit, List.takeWhile_append_of_pos hbody, List.dropWhile_append_of_pos hbody, hend.1,
        hend.2, List.append_nil]
  · next hascii => exact hrun hfirst hascii

end Lexeme

/-! ## Bodies and texts -/

theorem eof_notMem_symbols : Kind.eof ∉ Kind.symbols := by decide

/-- A token that is no string is written as its text, and the end of the text spans nothing. -/
def Lexeme.Spelled (l : Lexeme) : Prop :=
  ∀ kind text, l.outcome = .ok (kind, text) →
    (kind ≠ .string → text = String.ofList l.body) ∧ (kind = .eof → l.body = [])

namespace Lexeme

theorem quoted_spelled (quote : Char) (cs : List Char) : (quoted quote cs).Spelled := by
  unfold quoted
  split
  · intro kind text h
    cases h
    exact ⟨fun hk => absurd rfl hk, fun hk => nomatch hk⟩
  · exact fun _ _ h => nomatch h
  · exact fun _ _ h => nomatch h

theorem long_spelled (level : Nat) (cs : List Char) : (long level cs).Spelled := by
  unfold long
  split
  · intro kind text h
    cases h
    exact ⟨fun hk => absurd rfl hk, fun hk => nomatch hk⟩
  · exact fun _ _ h => nomatch h

theorem word_spelled {c : Char} (hc : isWordStart c = true) (cs : List Char) :
    (word c cs).Spelled := by
  intro kind text h
  rw [word_eq hc] at h ⊢
  cases h
  exact ⟨fun _ => rfl, fun heof => absurd (heof ▸ tableKind_mem _) (by decide)⟩

theorem plain_spelled (c : Char) (cs : List Char) : (plain c cs).Spelled := by
  unfold plain
  split
  · intro kind text h
    cases h
    exact ⟨fun _ => rfl, fun heof => nomatch heof⟩
  · split
    · next k t hsymbol =>
      intro kind text h
      cases h
      have hmem := (symbol?_eq_some hsymbol).1
      refine ⟨fun _ => String.ofList_toList.symm, fun heof => ?_⟩
      exact absurd (heof ▸ hmem) eof_notMem_symbols
    · exact fun _ _ h => nomatch h

/-- Every lexeme is spelled by its characters. -/
theorem head_spelled (cs : List Char) : (head cs).Spelled := by
  unfold head
  split
  · intro kind text h
    cases h
    exact ⟨fun _ => rfl, fun _ => rfl⟩
  · split
    · exact quoted_spelled _ _
    · split
      · next hc => exact word_spelled hc _
      · split
        · exact long_spelled _ _
        · split
          · exact fun _ _ h => nomatch h
          · exact plain_spelled _ _

theorem read_spelled (cs : List Char) : (read cs).Spelled := by
  unfold read
  split
  · exact head_spelled _
  · exact fun _ _ h => nomatch h

end Lexeme

/-! ## Readings tile the text -/

/-- The readings `rs` tile a text whose first character is at `p`. -/
inductive Tiles : Position → List Char → List Reading → Prop
  /-- After the last reading there is a gap, and the text ends. -/
  | done {p : Position} {lead : List Char} :
      Blank lead → Tiles p lead [.ok (.eof (p.after lead))]
  | token {p : Position} {lead body rest : List Char} {kind : Kind} {text : String}
      {rs : List Reading} :
      Blank lead → body ≠ [] → kind ≠ .eof → (kind ≠ .string → text = String.ofList body) →
      Tiles ((p.after lead).after body) rest rs →
      Tiles p (lead ++ body ++ rest)
        (.ok ⟨kind, text, ⟨p.after lead, (p.after lead).after body⟩⟩ :: rs)
  | fault {p : Position} {lead body rest : List Char} {cause : LexicalCause} {rs : List Reading} :
      body ≠ [] → Tiles ((p.after lead).after body) rest rs →
      Tiles p (lead ++ body ++ rest)
        (.error ⟨⟨p.after lead, (p.after lead).after body⟩, .lexical cause⟩ :: rs)

/-- By induction on the fuel. -/
theorem readingsFrom_tiles (fuel : Nat) (p : Position) (cs : List Char) (hfuel : cs.length ≤ fuel) :
    Tiles p cs (readingsFrom fuel p cs) := by
  induction fuel generalizing p cs with
  | zero =>
    obtain rfl : cs = [] := List.length_eq_zero_iff.1 (Nat.le_zero.1 hfuel)
    exact .done rfl
  | succ fuel ih =>
    have htext : (Lexeme.read cs).lead ++ (Lexeme.read cs).body ++ (Lexeme.read cs).rest = cs :=
      Lexeme.read_text cs
    have hrest : (Lexeme.read cs).body ≠ [] → (Lexeme.read cs).rest.length ≤ fuel := by
      intro hbody
      have hlen := congrArg List.length htext
      have hpos := List.length_pos_iff.2 hbody
      simp only [List.length_append] at hlen
      omega
    have hnext :=
      ih ((p.after (Lexeme.read cs).lead).after (Lexeme.read cs).body) (Lexeme.read cs).rest
    rw [readingsFrom]
    split
    · next text houtcome =>
      -- the end of the text spans nothing and leaves nothing
      obtain ⟨hspelled, hend⟩ := Lexeme.read_spelled cs _ _ houtcome
      have hnil := hend rfl
      have hempty : text = "" := by
        rw [hspelled (by decide), hnil]
      rw [hnil, (Lexeme.read_of_body_eq_nil hnil).1, List.append_nil, List.append_nil] at htext
      have hblank := blank_lead houtcome
      rw [htext] at hblank
      simp only [Lexeme.place, houtcome, hnil, htext, hempty, Position.after_nil]
      exact .done hblank
    · next hnot =>
      cases houtcome : (Lexeme.read cs).outcome with
      | error cause =>
        have hbody : (Lexeme.read cs).body ≠ [] := by
          intro hnil
          exact hnot "" (Lexeme.read_of_body_eq_nil hnil).2
        have hfault : Tiles p (_ ++ _ ++ _) (.error ⟨_, .lexical cause⟩ :: _) :=
          .fault hbody (hnext (hrest hbody))
        rw [htext] at hfault
        simpa only [Lexeme.place, houtcome, Reading.stop] using hfault
      | ok x =>
        obtain ⟨kind, text⟩ := x
        have hbody : (Lexeme.read cs).body ≠ [] := by
          intro hnil
          exact hnot "" (Lexeme.read_of_body_eq_nil hnil).2
        have hkind : kind ≠ .eof := by
          rintro rfl
          exact hnot text houtcome
        have htoken : Tiles p (_ ++ _ ++ _) (.ok ⟨kind, text, _⟩ :: _) :=
          .token (blank_lead houtcome) hbody hkind (Lexeme.read_spelled cs _ _ houtcome).1
            (hnext (hrest hbody))
        rw [htext] at htoken
        simpa only [Lexeme.place, houtcome, Reading.stop] using htoken

/-- **The readings of a text tile it.** -/
theorem readings_tiles (source : String) : Tiles .origin source.toList (readings source) :=
  readingsFrom_tiles _ _ _ (Nat.le_refl _)

/-! ## What is written under a token -/

theorem byteRange_after (p : Position) (body : List Char) :
    (Span.mk p (p.after body)).byteRange = (p.offset, p.offset + byteLength body) := by
  simp only [Span.byteRange, Position.after_offset]
  rw [Nat.max_eq_left (Nat.le_add_right _ _)]

theorem offset_after_after {p : Position} (hp : p.offset = byteLength before)
    (lead body : List Char) :
    ((p.after lead).after body).offset = byteLength (before ++ (lead ++ body)) := by
  rw [Position.after_offset, Position.after_offset, hp]
  simp only [byteLength_append]
  omega

theorem slice?_span {p : Position} {lead body rest : List Char}
    (hp : p.offset = byteLength before) :
    (Span.mk (p.after lead) ((p.after lead).after body)).slice?
      (String.ofList (before ++ (lead ++ body ++ rest))) = some (String.ofList body) := by
  have hstart : (p.after lead).offset = byteLength (before ++ lead) := by
    rw [Position.after_offset, hp, byteLength_append]
  have htext : before ++ (lead ++ body ++ rest) = before ++ lead ++ body ++ rest := by simp
  unfold Span.slice?
  rw [byteRange_after, hstart, String.toList_ofList, htext, sliceBytes?_append]
  rfl

theorem Tiles.slice? {p : Position} {cs : List Char} {rs : List Reading} (h : Tiles p cs rs)
    (hp : p.offset = byteLength before) (ht : .ok t ∈ rs) (hkind : t.kind ≠ .string) :
    t.span.slice? (String.ofList (before ++ cs)) = some t.text := by
  induction h generalizing before with
  | @done p lead hblank =>
    obtain rfl : t = .eof (p.after lead) := by simpa using ht
    have hslice : (Span.mk _ _).slice? (String.ofList (before ++ (lead ++ [] ++ []))) = some _ :=
      slice?_span hp
    simpa [Token.eof, Span.point] using hslice
  | @token p lead body rest kind text rs hblank hbody hkind' htext _ ih =>
    rcases List.mem_cons.1 ht with heq | ht
    · obtain rfl := Except.ok.inj heq
      rw [htext hkind]
      exact slice?_span hp
    · have hslice := ih (offset_after_after hp lead body) ht
      rwa [List.append_assoc before] at hslice
  | @fault p lead body rest cause rs hbody _ ih =>
    rcases List.mem_cons.1 ht with heq | ht
    · cases heq
    · have hslice := ih (offset_after_after hp lead body) ht
      rwa [List.append_assoc before] at hslice

/-- A token other than a string has the text of its span. -/
theorem slice?_of_mem_readings {source : String} (ht : .ok t ∈ readings source)
    (hkind : t.kind ≠ .string) : t.span.slice? source = some t.text := by
  have horigin : Position.origin.offset = byteLength [] := rfl
  have hslice := (readings_tiles source).slice? horigin ht hkind
  rwa [List.nil_append, String.ofList_toList] at hslice

/-! ## Texts without a fault -/

theorem eq_map_of_mapM_id {rs : List Reading} {ts : List Token} (h : rs.mapM id = .ok ts) :
    rs = ts.map .ok := by
  induction rs generalizing ts with
  | nil =>
    cases h
    rfl
  | cons r rs ih =>
    rw [List.mapM_cons] at h
    cases r with
    | error f => cases h
    | ok t =>
      cases hrest : rs.mapM id with
      | error f =>
        rw [hrest] at h
        cases h
      | ok us =>
        rw [hrest] at h
        cases h
        rw [List.map_cons, ← ih hrest]

/-- If there is no fault, the readings are the tokens. -/
theorem readings_of_tokenize {source : String} {ts : List Token} (h : tokenize source = .ok ts) :
    readings source = ts.map .ok := by
  have htiles := readings_tiles source
  generalize source.toList = cs at htiles
  unfold tokenize Stream.ofSource at h
  cases hreadings : readings source with
  | nil =>
    rw [hreadings] at htiles
    cases htiles
  | cons r rs =>
    rw [hreadings] at h htiles
    cases r with
    | error f => cases h
    | ok t =>
      replace h : (Stream.mk t t.span.stop rs).tokens = .ok ts := h
      unfold Stream.tokens at h
      split at h
      · next heof =>
        cases h
        cases htiles with
        | done => rfl
        | token _ _ hkind => exact absurd heof hkind
      · obtain ⟨us, hus, rfl⟩ : ∃ us, rs.mapM id = .ok us ∧ t :: us = ts := by
          cases hmap : rs.mapM id with
          | error f =>
            rw [hmap] at h
            cases h
          | ok us =>
            rw [hmap] at h
            exact ⟨us, rfl, Except.ok.inj h⟩
        rw [List.map_cons, ← eq_map_of_mapM_id hus]

/-- A blank text has no token but the end. -/
theorem tokenize_of_blank {cs : List Char} (h : Blank cs) :
    tokenize (String.ofList cs) = .ok [.eof (Position.origin.after cs)] := by
  have hread : Lexeme.read cs = ⟨cs, [], [], .ok (.eof, "")⟩ := by
    have hlead : Lexeme.read cs = { Lexeme.head [] with lead := cs ++ (Lexeme.head []).lead } := by
      unfold Lexeme.read
      rw [show gap cs = .reached cs [] from h]
    rw [hlead]
    simp [Lexeme.head]
  have hreadings : readings (String.ofList cs) = [.ok (.eof (Position.origin.after cs))] := by
    unfold readings
    rw [String.toList_ofList]
    cases cs.length with
    | zero => rfl
    | succ n =>
      rw [readingsFrom, hread]
      rfl
  unfold tokenize Stream.ofSource
  rw [hreadings]
  rfl

/-! ## Order and gaps -/

namespace Tiles

variable {p : Position} {cs : List Char} {ts : List Token}

/-- Tokens that tile a text: nothing but the end, or a first one and the rest. -/
theorem cases_tokens (h : Tiles p cs (ts.map .ok)) :
    (Blank cs ∧ ts = [.eof (p.after cs)]) ∨
      ∃ lead body rest t us, cs = lead ++ body ++ rest ∧ ts = t :: us ∧ us ≠ [] ∧ Blank lead ∧
        body ≠ [] ∧ t.span = ⟨p.after lead, (p.after lead).after body⟩ ∧
        Tiles ((p.after lead).after body) rest (us.map .ok) := by
  generalize hrs : ts.map Except.ok = rs at h
  cases h with
  | done hblank =>
    obtain ⟨t, us, rfl, ht, hus⟩ := List.map_eq_cons_iff.1 hrs
    obtain rfl := List.map_eq_nil_iff.1 hus
    exact .inl ⟨hblank, by rw [Except.ok.inj ht]⟩
  | @token _ lead body rest kind text rs hblank hbody _ _ hnext =>
    obtain ⟨t, us, rfl, ht, rfl⟩ := List.map_eq_cons_iff.1 hrs
    obtain rfl := Except.ok.inj ht
    refine .inr ⟨lead, body, rest, _, us, rfl, rfl, ?_, hblank, hbody, rfl, hnext⟩
    rintro rfl
    cases hnext
  | fault =>
    obtain ⟨t, us, rfl, ht, -⟩ := List.map_eq_cons_iff.1 hrs
    cases ht

theorem le_start (h : Tiles p cs (ts.map .ok)) (ht : t ∈ ts) : p.offset ≤ t.span.start.offset := by
  induction ts generalizing p cs with
  | nil => cases ht
  | cons u us ih =>
    rcases h.cases_tokens with
      ⟨hblank, heq⟩ | ⟨lead, body, rest, _, _, rfl, heq, -, -, -, hspan, hnext⟩
    · rw [heq, List.mem_singleton] at ht
      subst ht
      show p.offset ≤ (p.after cs).offset
      rw [Position.after_offset]
      omega
    · obtain ⟨rfl, rfl⟩ := List.cons.inj heq
      rcases List.mem_cons.1 ht with rfl | ht
      · rw [hspan, Position.after_offset]
        omega
      · have hle := ih hnext ht
        rw [Position.after_offset, Position.after_offset] at hle
        omega

theorem range_of_mem_dropLast (h : Tiles p cs (ts.map .ok)) (ht : t ∈ ts.dropLast) :
    t.span.byteRange.1 < t.span.byteRange.2 := by
  induction ts generalizing p cs with
  | nil => cases ht
  | cons u us ih =>
    rcases h.cases_tokens with
      ⟨-, heq⟩ | ⟨lead, body, rest, _, _, rfl, heq, hne, -, hbody, hspan, hnext⟩
    · rw [heq] at ht
      cases ht
    · obtain ⟨rfl, rfl⟩ := List.cons.inj heq
      rw [List.dropLast_cons_of_ne_nil hne] at ht
      rcases List.mem_cons.1 ht with rfl | ht
      · have hpos := byteLength_pos hbody
        rw [hspan, byteRange_after]
        show (p.after lead).offset < (p.after lead).offset + byteLength body
        omega
      · exact ih hnext ht

/-- They come in order. -/
theorem pairwise (h : Tiles p cs (ts.map .ok)) :
    ts.Pairwise fun a b =>
      a.span.byteRange.1 < b.span.byteRange.1 ∧ a.span.byteRange.2 ≤ b.span.byteRange.1 := by
  induction ts generalizing p cs with
  | nil => exact .nil
  | cons u us ih =>
    rcases h.cases_tokens with
      ⟨-, heq⟩ | ⟨lead, body, rest, _, _, rfl, heq, -, -, hbody, hspan, hnext⟩
    · rw [heq]
      exact List.pairwise_singleton _ _
    · obtain ⟨rfl, rfl⟩ := List.cons.inj heq
      refine .cons (fun b hb => ?_) (ih hnext)
      have hle := hnext.le_start hb
      have hpos := byteLength_pos hbody
      rw [Position.after_offset] at hle
      rw [hspan, byteRange_after]
      show (p.after lead).offset < b.span.start.offset ∧
        (p.after lead).offset + byteLength body ≤ b.span.start.offset
      omega

/-- The last of them is the end of the text. -/
theorem getLast? (h : Tiles p cs (ts.map .ok)) : ts.getLast? = some (.eof (p.after cs)) := by
  induction ts generalizing p cs with
  | nil => cases h
  | cons u us ih =>
    rcases h.cases_tokens with
      ⟨-, heq⟩ | ⟨lead, body, rest, _, _, rfl, heq, hne, -, -, -, hnext⟩
    · rw [heq]
      rfl
    · obtain ⟨rfl, rfl⟩ := List.cons.inj heq
      rw [List.getLast?_cons_of_ne_nil hne, ih hnext, Position.after_append, Position.after_append]

end Tiles

/-- The byte ranges that the tokens leave out, one before each token, from the byte `first` on. -/
def gapRanges : Nat → List Token → List (Nat × Nat)
  | _, [] => []
  | first, t :: ts => (first, t.span.byteRange.1) :: gapRanges t.span.byteRange.2 ts

/-- Between them there are blanks and comments. -/
theorem Tiles.gaps {p : Position} {cs : List Char} {ts : List Token} (h : Tiles p cs (ts.map .ok))
    (hp : p.offset = byteLength before) {range : Nat × Nat}
    (hrange : range ∈ gapRanges p.offset ts) :
    ∃ lead, sliceBytes? range.1 range.2 (before ++ cs) = some lead ∧ Blank lead := by
  induction ts generalizing p cs before with
  | nil => cases hrange
  | cons u us ih =>
    -- the gap before the first token
    have hfirst : ∀ lead rest : List Char,
        sliceBytes? p.offset (p.after lead).offset (before ++ (lead ++ rest)) = some lead := by
      intro lead rest
      rw [Position.after_offset, hp, ← List.append_assoc]
      exact sliceBytes?_append before lead rest
    rcases h.cases_tokens with
      ⟨hblank, heq⟩ | ⟨lead, body, rest, _, _, rfl, heq, -, hblank, -, hspan, hnext⟩
    · obtain ⟨rfl, rfl⟩ := List.cons.inj heq
      rcases List.mem_cons.1 hrange with rfl | hrange
      · refine ⟨cs, ?_, hblank⟩
        have hslice := hfirst cs []
        rwa [List.append_nil] at hslice
      · cases hrange
    · obtain ⟨rfl, rfl⟩ := List.cons.inj heq
      rcases List.mem_cons.1 hrange with rfl | hrange
      · refine ⟨lead, ?_, hblank⟩
        rw [hspan, List.append_assoc lead]
        exact hfirst lead (body ++ rest)
      · have hstop : u.span.byteRange.2 = ((p.after lead).after body).offset := by
          rw [hspan, byteRange_after, Position.after_offset (p.after lead)]
        rw [hstop] at hrange
        obtain ⟨lead', hslice, hblank'⟩ := ih hnext (offset_after_after hp lead body) hrange
        rw [List.append_assoc before] at hslice
        exact ⟨lead', hslice, hblank'⟩

/-! ## The tiling of a text by its tokens -/

/-- The tokens tile the text: they stand in order without overlap, only the last one spans nothing
and it marks the end of the text, what is written under a token is its text unless it is a string,
and what lies before, between and after the tokens reads as no token. -/
structure Tiling (source : String) (ts : List Token) : Prop where
  ordered : ts.Pairwise fun a b =>
    a.span.byteRange.1 < b.span.byteRange.1 ∧ a.span.byteRange.2 ≤ b.span.byteRange.1
  nonempty : ∀ t ∈ ts.dropLast, t.span.byteRange.1 < t.span.byteRange.2
  ends : ∃ p : Position, ts.getLast? = some (.eof p) ∧ p.offset = byteLength source.toList
  written : ∀ t ∈ ts, t.kind ≠ .string → t.span.slice? source = some t.text
  blank : ∀ range ∈ gapRanges 0 ts, ∃ lead, ∃ p : Position,
    sliceBytes? range.1 range.2 source.toList = some lead ∧
      tokenize (String.ofList lead) = .ok [.eof p]

/-- **The tokens of a text tile it.** -/
theorem tokenize_tiling {source : String} {ts : List Token} (h : tokenize source = .ok ts) :
    Tiling source ts := by
  have hreadings := readings_of_tokenize h
  have htiles : Tiles .origin source.toList (ts.map .ok) := by
    rw [← hreadings]
    exact readings_tiles source
  have horigin : Position.origin.offset = byteLength [] := rfl
  refine ⟨htiles.pairwise, fun t => htiles.range_of_mem_dropLast, ?_, fun t ht => ?_, ?_⟩
  · refine ⟨_, htiles.getLast?, ?_⟩
    rw [Position.after_offset, horigin]
    simp
  · refine slice?_of_mem_readings ?_
    rw [hreadings]
    exact List.mem_map_of_mem ht
  · intro range hrange
    obtain ⟨lead, hslice, hblank⟩ := htiles.gaps horigin hrange
    exact ⟨lead, _, hslice, tokenize_of_blank hblank⟩

set_option maxRecDepth 4000 in
/-- A text with blanks, comments of both sorts, characters of two bytes and a string. -/
theorem tokenize_tiling_comments :
    let source := " --[=[ é ]] ]=]local x = 'é\\n' --[=\n\t--x"
    ∃ ts, tokenize source = .ok ts ∧
      ts.map Token.kind = [.kwLocal, .identifier, .equals, .string, .eof] ∧ Tiling source ts := by
  intro source
  have hkinds : (tokenize source).map (List.map Token.kind) =
      .ok [.kwLocal, .identifier, .equals, .string, .eof] := by decide +kernel
  cases h : tokenize source with
  | error f =>
    rw [h] at hkinds
    cases hkinds
  | ok ts =>
    rw [h] at hkinds
    exact ⟨ts, rfl, Except.ok.inj hkinds, tokenize_tiling h⟩

end Token

end TypedLua
