import TypedLua.Proofs.Token.Layout

/-!
# Token.Positions

The bookkeeping of lines and columns, checked against the line feeds of the text.  The line feeds of
a text have byte offsets; a position of the text is exact if it stands between two characters, its
line counts the line feeds before its offset, and its column is measured from the byte after the
last of them.  A stream that is moved on any number of times, over faults as well, stands at an exact
position, and so do its tokens and its faults, unless the text has more lines than can be counted.

Main statements: `Position.IsIn.exact`, counting over a text gives exact positions,
`Stream.positions_exact`, so does reading it, and `Stream.line_wraps`, where the count fails.
-/

namespace TypedLua

open Text

namespace Text

/-! ## Line feeds -/

/-- The byte offsets of the line feeds of a text that starts at `offset`. -/
def lineFeedsFrom (offset : Nat) : List Char → List Nat
  | [] => []
  | c :: cs =>
    if c = '\n' then offset :: lineFeedsFrom (offset + c.utf8Size) cs
    else lineFeedsFrom (offset + c.utf8Size) cs

/-- The byte offsets of the line feeds of a text that stand before `offset`. -/
def lineFeedsBefore (source : String) (offset : Nat) : List Nat :=
  (lineFeedsFrom 0 source.toList).filter (· < offset)

/-- The byte offset at which the line of `offset` starts: just after the last line feed before it,
or the start of the text. -/
def lineStart (source : String) (offset : Nat) : Nat :=
  ((lineFeedsBefore source offset).getLast?.map (· + 1)).getD 0

/-- The line feeds of a text are those of its parts. -/
theorem lineFeedsFrom_append (offset : Nat) (a b : List Char) :
    lineFeedsFrom offset (a ++ b) =
      lineFeedsFrom offset a ++ lineFeedsFrom (offset + byteLength a) b := by
  induction a generalizing offset with
  | nil => simp [lineFeedsFrom]
  | cons c a ih =>
    by_cases hc : c = '\n'
    · simp [lineFeedsFrom, hc, ih, Nat.add_assoc]
    · simp [lineFeedsFrom, hc, ih, Nat.add_assoc]

theorem lineFeedsFrom_bounds {offset n : Nat} {cs : List Char} (h : n ∈ lineFeedsFrom offset cs) :
    offset ≤ n ∧ n < offset + byteLength cs := by
  induction cs generalizing offset with
  | nil => cases h
  | cons c cs ih =>
    have hsize := c.utf8Size_pos
    have hlater : n ∈ lineFeedsFrom (offset + c.utf8Size) cs →
        offset ≤ n ∧ n < offset + byteLength (c :: cs) := by
      intro hn
      have := ih hn
      rw [byteLength_cons]
      omega
    unfold lineFeedsFrom at h
    split at h
    · rcases List.mem_cons.1 h with rfl | hn
      · rw [byteLength_cons]
        omega
      · exact hlater hn
    · exact hlater h

theorem length_lineFeedsFrom (offset : Nat) (cs : List Char) :
    (lineFeedsFrom offset cs).length = cs.count '\n' := by
  induction cs generalizing offset with
  | nil => rfl
  | cons c cs ih =>
    by_cases hc : c = '\n'
    · simp [lineFeedsFrom, hc, ih]
    · simp [lineFeedsFrom, hc, ih]

/-- The last line begins after the last line feed. -/
theorem lastLine_start (cs : List Char) :
    ((lineFeedsFrom 0 cs).getLast?.map (· + 1)).getD 0 + byteLength (lastLine cs) =
      byteLength cs := by
  induction cs using List.reverseRecOn with
  | nil => rfl
  | append_singleton cs c ih =>
    rw [lineFeedsFrom_append, lastLine_concat, byteLength_append]
    by_cases hc : c = '\n'
    · subst hc
      simp [lineFeedsFrom]
      rfl
    · simp only [lineFeedsFrom, if_neg hc, List.append_nil, byteLength_append]
      omega

/-- The line feeds before a place are those of what precedes it. -/
theorem lineFeedsBefore_of_parts {source : String} {before after : List Char}
    (h : source.toList = before ++ after) :
    lineFeedsBefore source (byteLength before) = lineFeedsFrom 0 before := by
  unfold lineFeedsBefore
  rw [h, lineFeedsFrom_append, Nat.zero_add, List.filter_append]
  have hbefore : (lineFeedsFrom 0 before).filter (· < byteLength before) =
      lineFeedsFrom 0 before := by
    rw [List.filter_eq_self]
    intro n hn
    have := lineFeedsFrom_bounds hn
    simp only [decide_eq_true_eq]
    omega
  have hafter : (lineFeedsFrom (byteLength before) after).filter (· < byteLength before) = [] := by
    rw [List.filter_eq_nil_iff]
    intro n hn
    have := lineFeedsFrom_bounds hn
    simp only [decide_eq_true_eq]
    omega
  rw [hbefore, hafter, List.append_nil]

/-! ## Exact positions -/

/-- The position agrees with the line feeds of the text. -/
structure Position.Exact (source : String) (p : Position) : Prop where
  offset_le : p.offset ≤ byteLength source.toList
  boundary : (splitAtByte? p.offset source.toList).isSome
  line : p.line = (lineFeedsBefore source p.offset).length + 1
  /-- Its line starts in the text, not before it. -/
  column_le : p.column ≤ p.offset
  /-- Its line starts just after the last line feed before it. -/
  lineStart : p.offset - p.column = lineStart source p.offset

namespace Position

variable {source : String} {p : Position}

/-- Counting over a text whose lines can be counted gives exact positions. -/
theorem IsIn.exact (h : p.IsIn source) (hfits : Fits source) : p.Exact source := by
  obtain ⟨before, after, hsource, rfl⟩ := h
  rw [after_origin_of_fits hfits hsource]
  have hstart := lastLine_start before
  have hfeeds := lineFeedsBefore_of_parts hsource
  refine ⟨?_, ?_, ?_, ?_, ?_⟩
  · rw [hsource, byteLength_append]
    exact Nat.le_add_right _ _
  · show (splitAtByte? (byteLength before) source.toList).isSome
    rw [hsource, splitAtByte?_append]
    rfl
  · show before.count '\n' + 1 = (lineFeedsBefore source (byteLength before)).length + 1
    rw [hfeeds, length_lineFeedsFrom]
  · show byteLength (lastLine before) ≤ byteLength before
    omega
  · show byteLength before - byteLength (lastLine before) =
      Text.lineStart source (byteLength before)
    unfold Text.lineStart
    rw [hfeeds]
    omega

end Position

/-- Both ends of the span are exact. -/
structure Span.Exact (source : String) (s : Span) : Prop where
  start : s.start.Exact source
  stop : s.stop.Exact source

/-- In a text that fits, spans are exact. -/
theorem Span.IsIn.exact {source : String} {s : Span} (h : s.IsIn source)
    (hfits : Position.Fits source) : s.Exact source :=
  ⟨h.start.exact hfits, h.stop.exact hfits⟩

end Text

/-! ## Streams -/

namespace Token

namespace Stream

/-- All that a stream shows and is going to show lies in the text. -/
structure Lies (source : String) (s : Stream) : Prop where
  current : s.current.span.IsIn source
  position : s.position.IsIn source
  upcoming : ∀ r ∈ s.upcoming, (Reading.span r).IsIn source

variable {source : String} {s : Stream}

theorem lies_readings (source : String) :
    Lies source ⟨.eof .origin, .origin, readings source⟩ := by
  have horigin : Position.origin.IsIn source := ⟨[], source.toList, rfl, rfl⟩
  exact ⟨.point horigin, horigin, fun r hr => ((readings_laid source).lies hr).isIn⟩

/-- A step stays in the text. -/
theorem Lies.next (h : s.Lies source) : s.next.2.Lies source := by
  have hrest : ∀ r ∈ s.next.2.upcoming, (Reading.span r).IsIn source := by
    intro r hr
    rw [upcoming_next] at hr
    exact h.upcoming r (List.mem_of_mem_tail hr)
  cases hupcoming : s.upcoming with
  | nil =>
    have hnext : s.next = (.ok (), s) := by simp [Stream.next, hupcoming]
    rw [hnext]
    exact h
  | cons r rest =>
    have hr := h.upcoming r (by simp [hupcoming])
    cases r with
    | ok t =>
      have hnext : s.next = (.ok (), ⟨t, t.span.stop, rest⟩) := by simp [Stream.next, hupcoming]
      rw [hnext] at hrest ⊢
      exact ⟨hr, hr.stop, hrest⟩
    | error f =>
      have hnext : s.next = (.error f, ⟨s.current, f.span.stop, rest⟩) := by
        simp [Stream.next, hupcoming]
      rw [hnext] at hrest ⊢
      exact ⟨h.current, hr.stop, hrest⟩

/-- A fault is in the text. -/
theorem Lies.fault (h : s.Lies source) {f : Fault} (hf : s.next.1 = .error f) :
    f.span.IsIn source :=
  h.upcoming _ (mem_of_next hf)

/-- Every run stays in the text. -/
theorem Lies.moves {t : Stream} (h : s.Lies source) (hmoves : Moves s t) : t.Lies source := by
  induction hmoves with
  | refl => exact h
  | tail _ hstep ih =>
    rw [hstep]
    exact ih.next

theorem Lies.ofSource (h : Stream.ofSource source = .ok s) : s.Lies source := by
  unfold Stream.ofSource at h
  dsimp only at h
  split at h
  · next hnext =>
    cases h
    have hlies := (lies_readings source).next
    rwa [hnext] at hlies
  · cases h

theorem Lies.peek (h : s.Lies source) (count : Nat) :
    (Reading.span (s.peek count)).IsIn source := by
  induction count generalizing s with
  | zero => exact h.current
  | succ count ih =>
    unfold Stream.peek
    split
    · exact h.current
    · split
      · next t hnext =>
        have hlies := h.next
        rw [hnext] at hlies
        exact ih hlies
      · next f t hnext => exact h.fault (congrArg Prod.fst hnext)

/-- **Lines and columns are exact** in every text whose size is a 32-bit number, but one: wherever a
stream is moved to, over tokens and over faults, the place where it stands, its current token, the
fault of its next move and all that it sees ahead agree with the line feeds of the text; so does the
fault of a text without a first token. -/
theorem positions_exact (source : String) (hsize : byteLength source.toList < UInt32.size)
    (hother : source.toList ≠ List.replicate (UInt32.size - 1) '\n') :
    (∀ f, ofSource source = .error f → f.span.Exact source) ∧
    ∀ a s, ofSource source = .ok a → Moves a s →
      s.position.Exact source ∧ s.current.span.Exact source ∧
      (∀ f, s.next.1 = .error f → f.span.Exact source) ∧
      ∀ count, (Reading.span (s.peek count)).Exact source := by
  have hfits := (Position.fits_or_eq hsize).resolve_right hother
  refine ⟨fun f hf => ?_, fun a s ha hmoves => ?_⟩
  · exact ((readings_laid source).lies (mem_of_ofSource hf)).isIn.exact hfits
  · have hlies := (Lies.ofSource ha).moves hmoves
    exact ⟨hlies.position.exact hfits, hlies.current.exact hfits,
      fun f hf => (hlies.fault hf).exact hfits, fun count => (hlies.peek count).exact hfits⟩

/-- A string that goes over a line end and has a bad escape on the next line: the fault stands on the
third line, and reading goes on after it. -/
theorem positions_exact_past_escape :
    ∃ a f, ofSource "x\n'a\\\n\\q' y" = .ok a ∧ a.next.1 = .error f ∧ f.span.stop.line = 3 ∧
      f.span.Exact "x\n'a\\\n\\q' y" ∧
      a.next.2.next.2.position.Exact "x\n'a\\\n\\q' y" := by
  obtain ⟨-, hexact⟩ := positions_exact "x\n'a\\\n\\q' y" (by decide) (by
    intro h
    have hx : 'x' ∈ List.replicate (UInt32.size - 1) '\n' := h ▸ by decide
    exact absurd (List.eq_of_mem_replicate hx) (by decide))
  have hfault : (match ofSource "x\n'a\\\n\\q' y" with
      | .ok a => (match a.next.1 with
        | .error f => f.span.stop.line == 3
        | .ok _ => false)
      | .error _ => false) = true := by decide +kernel
  revert hfault hexact
  cases ofSource "x\n'a\\\n\\q' y" with
  | error f => intro _ hfault; cases hfault
  | ok a =>
    intro hexact hfault
    dsimp only at hfault
    split at hfault
    · next f hf =>
      obtain ⟨-, -, hspan, -⟩ := hexact a a rfl .refl
      obtain ⟨hposition, -⟩ := hexact a a.next.2.next.2 rfl (.tail (.tail .refl rfl) rfl)
      exact ⟨a, f, rfl, hf, beq_iff_eq.1 hfault, hspan f hf, hposition⟩
    · cases hfault

theorem byteLength_lineFeeds (n : Nat) : byteLength (List.replicate n '\n') = n := by
  induction n with
  | zero => rfl
  | succ n ih =>
    rw [List.replicate_succ, byteLength_cons, ih]
    exact Nat.add_comm 1 n

/-- The end of a text of line feeds stands on a line that is a 32-bit number. -/
theorem line_of_lineFeeds {n : Nat} (h : source.toList = List.replicate n '\n') :
    ∃ s, ofSource source = .ok s ∧ s.position.line = (n + 1) % UInt32.size ∧
      s.current.span.start.line = (n + 1) % UInt32.size := by
  have hline : (Position.after .origin source.toList).line = (n + 1) % UInt32.size := by
    rw [Position.after_origin, h]
    show (List.count '\n' (List.replicate n '\n') + 1) % UInt32.size = _
    rw [List.count_replicate_self]
  exact ⟨_, ofSource_lineFeeds h, hline, hline⟩

/-- **The count of lines can start again**: past as many line feeds as there can be, the end of the
text stands on line zero. -/
theorem line_wraps : ∃ source : String,
    source.toList = List.replicate (UInt32.size - 1) '\n' ∧
    byteLength source.toList < UInt32.size ∧
    ∃ s, ofSource source = .ok s ∧ s.position.line = 0 ∧ s.current.span.start.line = 0 ∧
      ¬ s.position.Exact source := by
  have hpos : 0 < UInt32.size := Nat.zero_lt_succ _
  obtain ⟨n, hn⟩ : ∃ n, n = UInt32.size - 1 := ⟨_, rfl⟩
  rw [← hn]
  have hsource : (String.ofList (List.replicate n '\n')).toList = List.replicate n '\n' :=
    String.toList_ofList
  have hzero : (n + 1) % UInt32.size = 0 := by
    rw [hn, Nat.sub_add_cancel hpos]
    exact Nat.mod_self _
  obtain ⟨s, hs, hposition, hcurrent⟩ := line_of_lineFeeds hsource
  rw [hzero] at hposition hcurrent
  refine ⟨_, hsource, ?_, s, hs, hposition, hcurrent, fun hexact => ?_⟩
  · rw [hsource, byteLength_lineFeeds, hn]
    exact Nat.sub_lt hpos Nat.one_pos
  · have hcount := hexact.line
    rw [hposition] at hcount
    cases hcount

end Stream

end Token

end TypedLua
