import TypedLua.Proofs.Text.Lines
import TypedLua.Proofs.Tree.Height

/-!
# Tree.Layout

Trees laid out over a text.  The place of every node is a span of a kind of one's own choice; the
parts of a node stand inside it, in order and without overlap.  An imported module is laid out over
a text of its own, and does not count as a part.

Main statements: `Expr.Laid.span` and `Expr.Laid.of_parts`.
-/

namespace TypedLua

open Text

/-! ## Expressions -/

mutual

/-- The expression is laid out over the text. -/
def Expr.Laid (P : Span → Prop) : Expr → Prop
  | .call callee arguments tag =>
    P tag.span ∧ callee.Laid P ∧
      tag.span.start.offset ≤ callee.span.start.offset ∧
      Expr.LaidAll P callee.span.stop.offset arguments tag.span.stop.offset
  | .index object key tag =>
    P tag.span ∧ object.Laid P ∧ key.Laid P ∧
      tag.span.start.offset ≤ object.span.start.offset ∧
      object.span.stop.offset ≤ key.span.start.offset ∧
      key.span.stop.offset ≤ tag.span.stop.offset
  | .member part _ tag | .group part tag | .entry _ part tag =>
    P tag.span ∧ part.Laid P ∧
      tag.span.start.offset ≤ part.span.start.offset ∧
      part.span.stop.offset ≤ tag.span.stop.offset
  | .constructor entries tag =>
    P tag.span ∧
      Expr.LaidAll P tag.span.start.offset entries tag.span.stop.offset
  | e => P e.span

/-- The expressions are laid out over the text, in order between two of its offsets. -/
def Expr.LaidAll (P : Span → Prop) : Nat → List Expr → Nat → Prop
  | first, [], last => first ≤ last
  | first, e :: es, last =>
    e.Laid P ∧ first ≤ e.span.start.offset ∧
      Expr.LaidAll P e.span.stop.offset es last

end

variable {P : Span → Prop}

namespace Expr

theorem Laid.span {e : Expr} (h : e.Laid P) : P e.span := by
  cases e with
  | call | index | member | group | entry | constructor => exact h.1
  | _ => exact h

/-- An expression is laid out if its parts are, one after the other inside it. -/
theorem Laid.of_parts {e : Expr} (hspan : P e.span)
    (hparts : LaidAll P e.span.start.offset e.parts e.span.stop.offset) : e.Laid P := by
  cases e with
  | call | member | group | entry | constructor => exact ⟨hspan, hparts⟩
  | index => exact ⟨hspan, hparts.1, hparts.2.2.1, hparts.2.1, hparts.2.2.2⟩
  | _ => exact hspan

theorem LaidAll.getLast {source : String} {first last : Nat} {es : List Expr} {e : Expr}
    (h : LaidAll (Span.IsIn source) first es last) (he : es.getLast? = some e) :
    e.Laid (Span.IsIn source) ∧ first ≤ e.span.start.offset := by
  induction es generalizing first with
  | nil => cases he
  | cons d es ih =>
    cases es with
    | nil =>
      cases he
      exact ⟨h.1, h.2.1⟩
    | cons d' es =>
      rw [List.getLast?_cons_cons] at he
      obtain ⟨hlaid, hle⟩ := ih h.2.2 he
      have hspan := h.1.span.le
      have hfirst := h.2.1
      exact ⟨hlaid, by omega⟩

end Expr

/-! ## Statements -/

mutual

/-- The statement is laid out over the text. -/
def Stmt.Laid (P : Span → Prop) : Stmt → Prop
  | .expression e span | .exportExpr e span =>
    P span ∧ Expr.LaidAll P span.start.offset [e] span.stop.offset
  | .locals _ es span | .imports es _ span =>
    P span ∧ Expr.LaidAll P span.start.offset es span.stop.offset
  | .exportStmt item span =>
    P span ∧ item.Laid P ∧ span.start.offset ≤ item.span.start.offset ∧
      item.span.stop.offset ≤ span.stop.offset
  | .externVariable _ span => P span
  | .externFunction head span =>
    P span ∧ Expr.LaidAll P span.start.offset [.prototype head] span.stop.offset
  | .block b => b.Laid P

/-- The block is laid out over the text. -/
def Block.Laid (P : Span → Prop) : Block → Prop
  | ⟨body, _, span⟩ =>
    P span ∧ Stmt.LaidAll P span.start.offset body span.stop.offset

/-- The statements are laid out over the text, in order between two of its offsets. -/
def Stmt.LaidAll (P : Span → Prop) : Nat → List Stmt → Nat → Prop
  | first, [], last => first ≤ last
  | first, m :: ms, last =>
    m.Laid P ∧ first ≤ m.span.start.offset ∧
      Stmt.LaidAll P m.span.stop.offset ms last

end

end TypedLua
