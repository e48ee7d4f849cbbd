import TypedLua.Proofs.Grammar.Refused
import TypedLua.Proofs.Types.Interning

/-!
# Grammar.PrintedType

Types as they are printed, and what is read where they stand.  A type has many written forms; it is
printed in one of them: a function with an arrow, `void` where it returns nothing, parentheses where
it returns several values, and nothing but the type where it returns one.  Reading what is printed
gives the type back, and that is the only type of its structure.

Main statement: `Grammar.type_reads_printed`.
-/

namespace TypedLua

open Text TypedLua.Parser
open Token (Kind)

/-! ## Types over names -/

/-- A type made of names. -/
inductive TypeTerm where
  /-- What a name stands for. -/
  | named (name : String)
  /-- The type of `nil`. -/
  | nil
  /-- An array. -/
  | array (element : TypeTerm)
  /-- Any number of values of a type. -/
  | vararg (element : TypeTerm)
  /-- A table.  How its properties are separated when it is printed is left open. -/
  | table (members : List (WrittenType.Member TypeTerm)) (closed : Bool)
  /-- A function. -/
  | function (arguments returns : List TypeTerm)

namespace TypeTerm

open WrittenType (Context Member Returns)

mutual

/-- The structure of a type, given those that names stand for. -/
def tree (Γ : Context) : TypeTerm → TypeTree
  | named name => (Γ.names name).getD .absent
  | nil => .ofPrimitive .nil
  | array element => .node (.array default) [element.tree Γ]
  | vararg element => .node (.vararg default) [element.tree Γ]
  | table members _ =>
    .node (.table (members.map fun f => ⟨f.name, default, f.optional⟩)) (memberTrees Γ members)
  | function arguments returns =>
    .node (.function ((trees Γ arguments).map fun _ => default)
      ((trees Γ returns).map fun _ => default)) (trees Γ arguments ++ trees Γ returns)

/-- The structures of types. -/
def trees (Γ : Context) : List TypeTerm → List TypeTree
  | [] => []
  | t :: ts => t.tree Γ :: trees Γ ts

/-- The structures of the types of properties. -/
def memberTrees (Γ : Context) : List (Member TypeTerm) → List TypeTree
  | [] => []
  | f :: members => f.type.tree Γ :: memberTrees Γ members

end

/-- How returns are printed. -/
def returnsOf : List WrittenType → Returns WrittenType
  | [] => .type (.named "void")
  | [e] => .type e
  | es => .group es

mutual

/-- The form in which a type is printed. -/
def printed : TypeTerm → WrittenType
  | named name => .named name
  | nil => .nil
  | array element => .array element.printed
  | vararg element => .vararg element.printed
  | table members closed => .table (printedMembers members) closed
  | function arguments returns => .function (printeds arguments) (returnsOf (printeds returns))

/-- The forms in which types are printed. -/
def printeds : List TypeTerm → List WrittenType
  | [] => []
  | t :: ts => t.printed :: printeds ts

/-- The forms in which properties are printed. -/
def printedMembers : List (Member TypeTerm) → List (Member WrittenType)
  | [] => []
  | f :: members => ⟨f.name, f.optional, f.type.printed, f.semicolon⟩ :: printedMembers members

end

/-- The words that a type is printed as. -/
def spelling (t : TypeTerm) : List Word := t.printed.spelling

/-- Whether the type is a function or variadic, and not by name. -/
def isBare : TypeTerm → Bool
  | vararg _ | function _ _ => true
  | _ => false

/-- Variadic types come last. -/
def VarargLast (Γ : Context) (ts : List TypeTerm) : Prop :=
  ∀ t ∈ (ts.map (tree Γ)).dropLast, t.isVararg = false

/-- The type can be printed: names stand for something, no array is one of a bare function or a bare
variadic type, variadic types come last, and no function returns a lone `void`, which is what one
that returns nothing is printed with. -/
inductive Printable (Γ : Context) : TypeTerm → Prop
  /-- A name that stands for something. -/
  | named {name : String} {tree : TypeTree} : Γ.names name = some tree → Printable Γ (.named name)
  /-- The type of `nil`. -/
  | nil : Printable Γ .nil
  /-- An array. -/
  | array {element : TypeTerm} : Printable Γ element → element.isBare = false →
    Printable Γ (.array element)
  /-- Any number of values of a type. -/
  | vararg {element : TypeTerm} : Printable Γ element → Printable Γ (.vararg element)
  /-- A table. -/
  | table {members : List (Member TypeTerm)} {closed : Bool} :
    (∀ f ∈ members, Printable Γ f.type) → Printable Γ (.table members closed)
  /-- A function. -/
  | function {arguments returns : List TypeTerm} : (∀ t ∈ arguments, Printable Γ t) →
    VarargLast Γ arguments → (∀ t ∈ returns, Printable Γ t) → VarargLast Γ returns →
    (∀ t, returns = [t] → (t.tree Γ).isVoid = false) →
    (returns = [] → Γ.names "void" = some (.ofPrimitive .void)) →
    Printable Γ (.function arguments returns)

variable {Γ : Context}

theorem trees_eq_map (ts : List TypeTerm) : trees Γ ts = ts.map (tree Γ) := by
  induction ts with
  | nil => rfl
  | cons t ts ih => exact congrArg (t.tree Γ :: ·) ih

theorem memberTrees_eq_map (fs : List (Member TypeTerm)) :
    memberTrees Γ fs = fs.map fun f => f.type.tree Γ := by
  induction fs with
  | nil => rfl
  | cons f fs ih => exact congrArg (f.type.tree Γ :: ·) ih

theorem printeds_eq_map (ts : List TypeTerm) : printeds ts = ts.map printed := by
  induction ts with
  | nil => rfl
  | cons t ts ih => exact congrArg (t.printed :: ·) ih

theorem printedMembers_eq_map (fs : List (Member TypeTerm)) : printedMembers fs =
    fs.map fun f => ⟨f.name, f.optional, f.type.printed, f.semicolon⟩ := by
  induction fs with
  | nil => rfl
  | cons f fs ih =>
    let member : Member WrittenType := ⟨f.name, f.optional, f.type.printed, f.semicolon⟩
    exact congrArg (member :: ·) ih

/-! ## The printed form -/

theorem isBare_printed {t : TypeTerm} (h : t.isBare = false) : t.printed.isBare = false := by
  cases t with
  | vararg _ => cases h
  | function _ _ => cases h
  | _ => rfl

theorem isOpen_printed : ∀ t : TypeTerm, t.printed.isOpen = false
  | named _ => rfl
  | nil => rfl
  | array _ => rfl
  | vararg element => isOpen_printed element
  | table _ _ => rfl
  | function _ [] => rfl
  | function _ [t] => isOpen_printed t
  | function _ (_ :: _ :: _) => rfl

theorem isFunction_printed (arguments returns : List TypeTerm) :
    (function arguments returns).printed.isFunction = true := by
  match returns with
  | [] | [_] | _ :: _ :: _ => rfl

/-- What is printed with a group first is a function. -/
theorem Printable.isFunction {t : TypeTerm} (h : Printable Γ t) :
    t.printed.startsGroup = true → t.printed.isFunction = true := by
  induction h with
  | @array element _ hbare ih =>
    intro hstarts
    have hfunction := ih hstarts
    cases element with
    | function _ _ => cases hbare
    | _ => cases hfunction
  | @function arguments returns => exact fun _ => isFunction_printed arguments returns
  | _ => exact nofun

theorem clear_returnsOf {returns : List TypeTerm} (h : ∀ t ∈ returns, Printable Γ t) :
    (returnsOf (printeds returns)).Clear Γ := by
  cases returns with
  | nil => exact nofun
  | cons t ts =>
    cases ts with
    | nil => exact (h t List.mem_cons_self).isFunction
    | cons u us => exact .intro

theorem types_returnsOf {es : List WrittenType} (h : es ≠ []) : (returnsOf es).types = es := by
  match es with
  | [] => exact absurd rfl h
  | [_] | _ :: _ :: _ => rfl

theorem stripped_returnTrees {es : List WrittenType} {ts : List TypeTree}
    (hes : es.map (WrittenType.tree Γ) = ts) (hlone : ∀ t, ts = [t] → t.isVoid = false)
    (hvoid : ts = [] → Γ.names "void" = some (.ofPrimitive .void)) :
    TypeTree.stripped (WrittenType.returnTrees Γ (returnsOf es)) = ts := by
  subst hes
  match es with
  | [] =>
    show TypeTree.stripped [(Γ.names "void").getD .absent] = []
    rw [hvoid rfl]
    rfl
  | [e] =>
    show (if (e.tree Γ).isVoid = true then [] else [e.tree Γ]) = _
    rw [hlone _ rfl]
    rfl
  | e :: e' :: es =>
    show TypeTree.stripped (WrittenType.trees Γ (e :: e' :: es)) = _
    rw [WrittenType.trees_eq_map]
    rfl

/-- What is printed may be written, and denotes what was printed. -/
theorem Printable.proper {t : TypeTerm} (h : Printable Γ t) :
    t.printed.Proper Γ ∧ t.printed.tree Γ = t.tree Γ := by
  have hall : ∀ {ts : List TypeTerm},
      (∀ t ∈ ts, t.printed.Proper Γ ∧ t.printed.tree Γ = t.tree Γ) →
      (∀ e ∈ printeds ts, e.Proper Γ) ∧
        (printeds ts).map (WrittenType.tree Γ) = ts.map (tree Γ) := by
    intro ts hts
    rw [printeds_eq_map, List.map_map]
    refine ⟨fun e he => ?_, List.map_congr_left fun t ht => (hts t ht).2⟩
    obtain ⟨t, ht, rfl⟩ := List.mem_map.1 he
    exact (hts t ht).1
  induction h with
  | named hname => exact ⟨.named hname, rfl⟩
  | nil => exact ⟨.nil, rfl⟩
  | array _ hbare ih =>
    refine ⟨.array ih.1 (isBare_printed hbare), ?_⟩
    rw [printed, WrittenType.tree, ih.2, tree]
  | vararg _ ih =>
    refine ⟨.vararg ih.1, ?_⟩
    rw [printed, WrittenType.tree, ih.2, tree]
  | @table members closed _ ih =>
    rw [printed, printedMembers_eq_map]
    constructor
    · refine .table fun f hf => ?_
      obtain ⟨g, hg, rfl⟩ := List.mem_map.1 hf
      exact (ih g hg).1
    · rw [WrittenType.tree, tree, WrittenType.memberTrees_eq_map, memberTrees_eq_map,
        List.map_map, List.map_map]
      exact congrArg (TypeTree.node _) (List.map_congr_left fun f hf => (ih f hf).2)
  | @function arguments returns _ hlast hreturns hlast' hlone hvoid ih ih' =>
    obtain ⟨hargumentsProper, hargumentsTree⟩ := hall ih
    obtain ⟨hreturnsProper, hreturnsTree⟩ := hall ih'
    obtain ⟨hreturnProper, hreturnLast⟩ :
        (∀ e ∈ (returnsOf (printeds returns)).types, e.Proper Γ) ∧
          WrittenType.VarargLast Γ (returnsOf (printeds returns)).types := by
      cases returns with
      | nil =>
        -- `void` is printed, and stands for itself
        refine ⟨fun e he => ?_, fun t ht => absurd ht List.not_mem_nil⟩
        obtain rfl := List.mem_singleton.1 he
        exact .named (hvoid rfl)
      | cons t ts =>
        have htypes : (returnsOf (printeds (t :: ts))).types = printeds (t :: ts) :=
          types_returnsOf (List.cons_ne_nil t.printed (printeds ts))
        rw [htypes, WrittenType.VarargLast, hreturnsTree]
        exact ⟨hreturnsProper, hlast'⟩
    constructor
    · refine .function hargumentsProper ?_ hreturnProper hreturnLast (clear_returnsOf hreturns)
      rw [WrittenType.VarargLast, hargumentsTree]
      exact hlast
    · have hstripped : TypeTree.stripped
          (WrittenType.returnTrees Γ (returnsOf (printeds returns))) = returns.map (tree Γ) := by
        refine stripped_returnTrees hreturnsTree (fun t ht => ?_) fun hnil => ?_
        · obtain ⟨u, rfl, rfl⟩ := List.map_eq_singleton_iff.1 ht
          exact hlone u rfl
        · exact hvoid (List.map_eq_nil_iff.1 hnil)
      rw [printed, WrittenType.tree, WrittenType.functionTree, hstripped, tree, trees_eq_map,
        trees_eq_map, WrittenType.trees_eq_map, hargumentsTree]

end TypeTerm

/-! ## Reading what is printed -/

namespace Grammar

/-- **Reading a type undoes printing it.**  Where the words come next that a type is printed as, and
after them a word that would not be taken as a part of it, the type of the session that has its
structure is read, which is the only one, and the word after it is left; or constructs are nested
too deep. -/
theorem type_reads_printed (env : ParserEnv) (s : ParserState) (Γ : WrittenType.Context)
    (t : TypeTerm) (w : Word) (ws : List Word) (hs : s.Knows Γ) (ht : t.Printable Γ)
    (hbracket : w.1 ≠ .leftBracket) (hless : w.1 ≠ .less) (harrow : w.1 ≠ .arrow)
    (h : s.stream.Ahead (t.spelling ++ w :: ws)) :
    (∃ id u, type env s = (.ok id, u) ∧ u.session.types.Holds id ∧
      (∀ x, u.session.types.Holds x → (u.session.types.unfold x = t.tree Γ ↔ x = id)) ∧
      u.stream.Ahead (w :: ws)) ∨
    ∃ f u, type env s = (.error f, u) ∧ f.cause = .tooDeep nestingLimit "type" := by
  obtain ⟨hproper, htree⟩ := ht.proper
  have hadmits : Admits t.printed w.1 := by
    refine ⟨hless, harrow, fun hopen => ?_, fun _ => hbracket⟩
    rw [t.isOpen_printed] at hopen
    cases hopen
  have hreads : ReadsTypes Γ TooDeep env (typeWithin (nestingLimit - s.depth)) id :=
    readsTypes_typeWithin _
  have htakes := hreads.takes hproper hadmits hbracket h hs.leads
  cases hrun : type env s with
  | mk r u =>
    cases r with
    | error f => exact .inr ⟨f, u, rfl, htakes.error hrun⟩
    | ok id =>
      obtain ⟨hleads, hahead, hholds, hunfold⟩ := htakes.ok hrun
      refine .inl ⟨id, u, rfl, hholds, fun x hx => ?_, hahead⟩
      rw [← htree, ← hunfold]
      exact hleads.2.1.grounded.unfold_eq_iff hx hholds

set_option maxRecDepth 4000 in
/-- An array of tables, a variadic argument, and a function that returns several values where a
function returns it alone. -/
theorem type_reads_printed_nested :
    let env : ParserEnv := ⟨⟨"/", []⟩, .ofPath ⟨"main.lua"⟩ "", fun _ _ => Pure.pure none⟩
    let Γ := rootContext {}
    let members : List (WrittenType.Member TypeTerm) :=
      [⟨"x", true, .nil, true⟩, ⟨"f", false, .function [] [], false⟩]
    let t : TypeTerm := .function [.array (.table members false), .vararg (.named "any")]
      [.function [.named "string"] [.named "number", .vararg .nil]]
    let words := t.spelling.tail ++ [(.identifier, "y")]
    let s := begun { stream := .ofWords Kind.leftParen.word words, session := {} }
    s.Knows Γ ∧ t.Printable Γ ∧ ∃ id u, type env s = (.ok id, u) ∧ u.session.types.Holds id ∧
      (∀ x, u.session.types.Holds x → (u.session.types.unfold x = t.tree Γ ↔ x = id)) ∧
      u.stream.Ahead [(.identifier, "y")] := by
  intro env Γ members t words s
  have hnamed : ∀ name p, Γ.names name = some (.ofPrimitive p) →
      (TypeTerm.named name).Printable Γ := fun _ _ hname => .named hname
  have hvoid : Γ.names "void" = some (.ofPrimitive .void) := rfl
  have hmembers : (TypeTerm.table members false).Printable Γ := by
    refine .table (List.forall_mem_cons.2 ⟨.nil, List.forall_mem_cons.2 ⟨?_, nofun⟩⟩)
    exact .function nofun nofun nofun nofun nofun fun _ => hvoid
  have hreturned : (TypeTerm.function [.named "string"] [.named "number", .vararg .nil]).Printable
      Γ := by
    refine .function (List.forall_mem_cons.2 ⟨hnamed _ .string rfl, nofun⟩) nofun
      (List.forall_mem_cons.2 ⟨hnamed _ .number rfl, List.forall_mem_cons.2 ⟨.vararg .nil, nofun⟩⟩)
      (List.forall_mem_cons.2 ⟨rfl, nofun⟩) nofun nofun
  have hprintable : t.Printable Γ := by
    refine .function (List.forall_mem_cons.2 ⟨.array hmembers rfl, ?_⟩)
      (List.forall_mem_cons.2 ⟨rfl, nofun⟩) (List.forall_mem_cons.2 ⟨hreturned, nofun⟩) nofun
      (fun u hu => ?_) nofun
    · exact List.forall_mem_cons.2 ⟨.vararg (hnamed _ .any rfl), nofun⟩
    · rw [← List.singleton_inj.1 hu]
      rfl
  refine ⟨begun_knows _ {} rfl, hprintable, ?_⟩
  rcases type_reads_printed env s Γ t (.identifier, "y") [] (begun_knows _ {} rfl) hprintable
    nofun nofun nofun (Token.Stream.Ahead.ofWords _ _) with hread | ⟨f, u, hfault, -⟩
  · exact hread
  · have hok : (type env s).1.isOk = true := by decide +kernel
    rw [hfault] at hok
    cases hok

end Grammar

end TypedLua
