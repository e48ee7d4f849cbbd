import Mathlib.Data.List.Induction
import TypedLua.Proofs.Token.Tiling
import TypedLua.Report.Snippet

/-!
# Text.Lines

Places of a text by line and column.  A position of a text cuts it in two; its line is one more than
the number of line feeds before the cut, and its column is the size of what stands between the last
of them and the cut, as far as 32-bit numbers go.  A span of a text runs from one of its positions to
a later one.

Main statements: `Position.after_origin`, counting from the start of a text gives its positions,
`Span.sourceLine_eq`, the source line of a diagnostic about a span of a text is the line around the
start of the span, and `Diagnostic.located`, such a diagnostic is shown with its source.
-/

namespace TypedLua

open Text

namespace Text

/-! ## Positions -/

/-- What stands after the last line feed of a text. -/
def lastLine (cs : List Char) : List Char := (cs.reverse.takeWhile (· != '\n')).reverse

theorem lastLine_suffix (cs : List Char) : lastLine cs <:+ cs := by
  unfold lastLine
  rw [← List.reverse_prefix, List.reverse_reverse]
  exact List.takeWhile_prefix _

theorem lastLine_concat (cs : List Char) (c : Char) :
    lastLine (cs ++ [c]) = if c = '\n' then [] else lastLine cs ++ [c] := by
  unfold lastLine
  rw [List.reverse_append, List.reverse_singleton, List.singleton_append, List.takeWhile_cons]
  by_cases hc : c = '\n'
  · simp [hc]
  · simp [hc]

/-- The place where the text before it ends. -/
def Position.ending (before : List Char) : Position :=
  ⟨before.count '\n' + 1, byteLength (lastLine before), byteLength before⟩

/-- The position is one of the text: it cuts the text in two, and is where counting over the first
part leads. -/
def Position.IsIn (source : String) (p : Position) : Prop :=
  ∃ before after, source.toList = before ++ after ∧ p = origin.after before

namespace Position

/-- Counting over a text gives the place where it ends, with its line and column as 32-bit numbers. -/
theorem after_origin (cs : List Char) : origin.after cs =
    ⟨(ending cs).line % UInt32.size, (ending cs).column % UInt32.size, (ending cs).offset⟩ := by
  induction cs using List.reverseRecOn with
  | nil => rfl
  | append_singleton cs c ih =>
    rw [after_append, ih, after_cons, after_nil]
    unfold ending step
    rw [lastLine_concat]
    by_cases hc : c = '\n'
    · simp [hc, List.count_append, byteLength_append]
    · simp [hc, List.count_append, byteLength_append]

/-- The text is short enough for its lines and columns to be 32-bit numbers. -/
def Fits (source : String) : Prop :=
  source.toList.count '\n' + 1 < UInt32.size ∧ byteLength source.toList < UInt32.size

/-- In a text that fits, no position wraps. -/
theorem after_origin_of_fits {source : String} {before after : List Char} (h : Fits source)
    (hsource : source.toList = before ++ after) : origin.after before = ending before := by
  have hline : (ending before).line < UInt32.size := by
    refine lt_of_le_of_lt (Nat.succ_le_succ ?_) h.1
    rw [hsource, List.count_append]
    exact Nat.le_add_right _ _
  have hcolumn : (ending before).column < UInt32.size := by
    refine lt_of_le_of_lt ?_ h.2
    obtain ⟨more, hmore⟩ := lastLine_suffix before
    show byteLength (lastLine before) ≤ _
    rw [hsource, byteLength_append]
    conv_rhs => rw [← hmore, byteLength_append]
    omega
  rw [after_origin, Nat.mod_eq_of_lt hline, Nat.mod_eq_of_lt hcolumn]

theorem length_le_byteLength (cs : List Char) : cs.length ≤ byteLength cs := by
  induction cs with
  | nil => exact Nat.le_refl _
  | cons c cs ih =>
    have hsize := c.utf8Size_pos
    rw [List.length_cons, byteLength_cons]
    omega

/-- Of the texts whose size is a 32-bit number, one has too many lines: it is nothing but line
feeds. -/
theorem fits_or_eq {source : String} (h : byteLength source.toList < UInt32.size) :
    Fits source ∨ source.toList = List.replicate (UInt32.size - 1) '\n' := by
  have hcount := List.count_le_length (a := '\n') (l := source.toList)
  have hlength := length_le_byteLength source.toList
  by_cases hline : source.toList.count '\n' + 1 < UInt32.size
  · exact .inl ⟨hline, h⟩
  · refine .inr (List.eq_replicate_iff.2 ⟨by omega, fun c hc => ?_⟩)
    exact (List.count_eq_length.1 (by omega) c hc).symm

end Position

/-! ## Spans -/

/-- The span is one of the text: it runs from one of its positions to a later one. -/
structure Span.IsIn (source : String) (s : Span) : Prop where
  start : s.start.IsIn source
  stop : s.stop.IsIn source
  le : s.start.offset ≤ s.stop.offset

namespace Span

variable {source : String} {s : Span} {p : Position}

theorem IsIn.point (h : p.IsIn source) : (point p).IsIn source := ⟨h, h, Nat.le_refl _⟩

/-- Of two ways to part a text, the shorter first part begins the other. -/
theorem append_of_byteLength_le {a b c d : List Char} (h : a ++ b = c ++ d)
    (hle : byteLength a ≤ byteLength c) : ∃ mid, c = a ++ mid ∧ b = mid ++ d := by
  rcases List.append_eq_append_iff.1 h with ⟨mid, rfl, rfl⟩ | ⟨mid, rfl, rfl⟩
  · exact ⟨mid, rfl, rfl⟩
  · -- nothing can stand between the second cut and the first
    have hmid : mid = [] := by
      by_contra hne
      have hpos := byteLength_pos hne
      rw [byteLength_append] at hle
      omega
    subst hmid
    exact ⟨[], by simp, by simp⟩

/-- The text of a span is what the span was counted over. -/
theorem slice?_after {before mid after : List Char} (h : source.toList = before ++ mid ++ after) :
    slice? ⟨.after .origin before, .after .origin (before ++ mid)⟩ source =
      some (String.ofList mid) := by
  have hrange : byteRange ⟨.after .origin before, .after .origin (before ++ mid)⟩ =
      (byteLength before, byteLength before + byteLength mid) := by
    simp [byteRange, Position.after_offset, Position.origin, byteLength_append]
  unfold slice?
  rw [hrange, h, sliceBytes?_append]
  rfl

/-- A span in a text parts it in three. -/
theorem IsIn.parts (h : s.IsIn source) : ∃ before mid after,
    source.toList = before ++ mid ++ after ∧
      s = ⟨.after .origin before, .after .origin (before ++ mid)⟩ := by
  obtain ⟨a, b, hab, hstart⟩ := h.start
  obtain ⟨c, d, hcd, hstop⟩ := h.stop
  have hle := h.le
  rw [hstart, hstop, Position.after_offset, Position.after_offset] at hle
  obtain ⟨mid, rfl, rfl⟩ := append_of_byteLength_le (hab.symm.trans hcd) (Nat.le_of_add_le_add_left hle)
  exact ⟨a, mid, d, hcd, congrArg₂ Span.mk hstart hstop⟩

end Span

end Text

/-! ## Texts of line feeds -/

namespace Token

theorem gap_lineFeeds (n : Nat) :
    gap (List.replicate n '\n') = .reached (List.replicate n '\n') [] := by
  induction n with
  | zero => rfl
  | succ n ih =>
    rw [List.replicate_succ, gap_blank rfl, ih]
    rfl

/-- A text of line feeds has no token but the end of the text. -/
theorem Stream.ofSource_lineFeeds {source : String} {n : Nat}
    (h : source.toList = List.replicate n '\n') :
    ofSource source = .ok ⟨.eof (.after .origin source.toList), .after .origin source.toList, []⟩ := by
  have hread : Lexeme.read (List.replicate n '\n') =
      ⟨List.replicate n '\n', [], [], .ok (.eof, "")⟩ := by
    rw [Lexeme.read, gap_lineFeeds]
    simp [Lexeme.head]
  have hreadings : readings source = [.ok (.eof (.after .origin source.toList))] := by
    unfold readings
    rw [h]
    cases n with
    | zero => rfl
    | succ n =>
      rw [List.length_replicate, readingsFrom, hread]
      rfl
  unfold ofSource
  rw [hreadings]
  rfl

end Token

/-! ## Source lines -/

namespace Diagnostic

theorem splitLines_zero (cs : List Char) :
    (splitLines cs)[0]? = some (cs.takeWhile (· != '\n')) := by
  induction cs with
  | nil => rfl
  | cons c cs ih =>
    unfold splitLines
    by_cases hc : c = '\n'
    · simp [hc]
    · rw [if_neg hc]
      cases hlines : splitLines cs with
      | nil =>
        rw [hlines] at ih
        cases ih
      | cons line lines =>
        rw [hlines] at ih
        simpa [hc] using ih

theorem splitLines_append (a b : List Char) :
    splitLines (a ++ '\n' :: b) = splitLines a ++ splitLines b := by
  induction a with
  | nil => simp [splitLines]
  | cons c a ih =>
    simp only [List.cons_append, splitLines, ih]
    by_cases hc : c = '\n'
    · simp [hc]
    · rw [if_neg hc, if_neg hc]
      cases hlines : splitLines a with
      | nil =>
        have hzero := splitLines_zero a
        rw [hlines] at hzero
        cases hzero
      | cons line lines => rfl

/-- There is one line more than there are line feeds. -/
theorem length_splitLines (cs : List Char) :
    (splitLines cs).length = cs.count '\n' + 1 := by
  induction cs with
  | nil => rfl
  | cons c cs ih =>
    unfold splitLines
    by_cases hc : c = '\n'
    · simp [hc, ih]
    · rw [if_neg hc, List.count_cons_of_ne hc]
      cases hlines : splitLines cs with
      | nil =>
        rw [hlines] at ih
        cases ih
      | cons line lines =>
        rw [hlines] at ih
        simpa using ih

/-- The line of a place is as many lines down as there are line feeds before it. -/
theorem splitLines_count (before after : List Char) :
    (splitLines (before ++ after))[before.count '\n']? =
      some (lastLine before ++ after.takeWhile (· != '\n')) := by
  induction before using List.reverseRecOn generalizing after with
  | nil => exact splitLines_zero after
  | append_singleton before c ih =>
    rw [List.append_assoc, List.singleton_append, List.count_append, lastLine_concat]
    by_cases hc : c = '\n'
    · subst hc
      rw [splitLines_append, if_pos rfl,
        List.getElem?_append_right (by rw [length_splitLines]; simp), length_splitLines]
      simpa using splitLines_zero after
    · have hline := ih (c :: after)
      rw [if_neg hc, List.count_cons_of_ne hc]
      simpa [hc] using hline

end Diagnostic

namespace Text.Span

variable {source message : String} {before mid after : List Char}

/-- A report quotes the whole line in which it begins. -/
theorem sourceLine_eq (h : source.toList = before ++ mid ++ after) :
    Diagnostic.sourceLine ⟨⟨.ending before, .ending (before ++ mid)⟩, message⟩ source =
      String.ofList (Diagnostic.withoutReturn
        (lastLine before ++ (mid ++ after).takeWhile (· != '\n'))) := by
  have hline : (Position.ending before).line - 1 = before.count '\n' := rfl
  unfold Diagnostic.sourceLine
  rw [hline, h, List.append_assoc, Diagnostic.splitLines_count]

end Text.Span

namespace Diagnostic

variable {file : SourceFile} {d : Diagnostic} {before mid after : List Char}

/-- The diagnostic cuts the text of the file in three, where its span starts and ends; so it can be
shown with its source. -/
structure Cuts (d : Diagnostic) (file : SourceFile) (before mid after : List Char) : Prop where
  text : file.text.toList = before ++ mid ++ after
  start : d.span.start.offset = byteLength before
  stop : d.span.stop.offset = byteLength (before ++ mid)
  le : d.span.start.offset ≤ d.span.stop.offset
  inside : d.span.stop.offset ≤ byteLength file.text.toList
  slice : d.span.slice? file.text = some (String.ofList mid)
  shown : d.render file true = Snippet.render d file

/-- The span of the diagnostic gives the lines, columns and offsets of the two cuts, and its source
line is the line around the first cut, less a carriage return at its end. -/
structure Counts (d : Diagnostic) (file : SourceFile) (before mid after : List Char) : Prop where
  span : d.span = ⟨.ending before, .ending (before ++ mid)⟩
  sourceLine : d.sourceLine file.text = String.ofList (withoutReturn
    (lastLine before ++ (mid ++ after).takeWhile (· != '\n')))

/-- A report whose span is in the text cuts it there, and counts its lines if it fits. -/
theorem located (h : d.span.IsIn file.text) : ∃ before mid after,
    d.Cuts file before mid after ∧
      (Position.Fits file.text → d.Counts file before mid after) := by
  obtain ⟨before, mid, after, hsource, hspan⟩ := h.parts
  have hle := h.le
  obtain ⟨span, message⟩ := d
  obtain rfl : span = _ := hspan
  have hoffset : ∀ cs, (Position.origin.after cs).offset = byteLength cs := fun cs =>
    (Position.after_offset _ _).trans (Nat.zero_add _)
  have hslice := Span.slice?_after hsource
  refine ⟨before, mid, after, ⟨hsource, hoffset _, hoffset _, hle, ?_, hslice, ?_⟩, fun hfits => ?_⟩
  · show (Position.origin.after (before ++ mid)).offset ≤ _
    rw [hoffset, hsource, byteLength_append (before ++ mid)]
    exact Nat.le_add_right _ _
  · unfold render
    rw [hslice]
    rfl
  · rw [Position.after_origin_of_fits hfits hsource,
      Position.after_origin_of_fits hfits (hsource.trans (List.append_assoc _ _ _))]
    exact ⟨rfl, Span.sourceLine_eq hsource⟩

end Diagnostic

end TypedLua
