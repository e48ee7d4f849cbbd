import TypedLua.Proofs.Grammar.Boundaries
import TypedLua.Proofs.Token.Tiling

/-!
# Grammar.Frames

The scopes of a parser and the frames of lexical scoping bind the same.  At every boundary the open
scopes agree with the frames that are told from the statements completed so far, and the names used
in these statements are what lexical scoping selects.

Main statements: `Boundary.scoped`, `Boundary.selected` and `Traced.unbound`.
-/

namespace TypedLua

open Text TypedLua.Parser
open Token (Kind)

/-! ## Agreement -/

/-- A scope and a frame bind the same. -/
structure Scope.Agrees (scope : Scope) (frame : Frame) : Prop where
  vars (name : String) : scope.vars.find? name = frame.vars.lookup name
  types (name : String) : scope.types.find? name = frame.types.lookup name

/-- The open scopes and the frames bind the same, one by one. -/
def ScopeStack.Agrees (scopes : ScopeStack) (frames : List Frame) : Prop :=
  List.Forall₂ Scope.Agrees scopes.scopes frames

variable {name : String} {id : VariableId} {a : VariableArena} {ids : List VariableId} {m : Stmt}
  {start : ParserState} {room : Nat} {blocks : List (List Stmt)}

namespace ScopeStack.Agrees

variable {scopes : ScopeStack} {frame : Frame} {frames : List Frame}

/-- Names of variables mean what the frames say. -/
theorem resolveVariable_eq (h : scopes.Agrees frames) (name : String) :
    scopes.resolveVariable name = Frame.findVariable? frames name := by
  obtain ⟨scopes⟩ := scopes
  unfold resolveVariable Frame.findVariable?
  change List.Forall₂ _ scopes _ at h
  induction h with
  | nil => rfl
  | cons hscope _ ih => rw [List.findSome?_cons, List.findSome?_cons, hscope.vars name, ih]

/-- So do names of types. -/
theorem resolveType_eq (h : scopes.Agrees frames) (name : String) :
    scopes.resolveType name = Frame.findType? frames name := by
  obtain ⟨scopes⟩ := scopes
  unfold resolveType Frame.findType?
  change List.Forall₂ _ scopes _ at h
  induction h with
  | nil => rfl
  | cons hscope _ ih => rw [List.findSome?_cons, List.findSome?_cons, hscope.types name, ih]

theorem modifyCurrent (h : scopes.Agrees (frame :: frames)) {f : Scope → Scope} {frame' : Frame}
    (hf : ∀ scope, scope.Agrees frame → (f scope).Agrees frame') :
    (scopes.modifyCurrent f).Agrees (frame' :: frames) := by
  obtain ⟨scopes⟩ := scopes
  cases h with
  | cons hscope hrest => exact .cons (hf _ hscope) hrest

theorem lookup_cons_eq {α : Type} (entries : List (String × α)) (name other : String) (x : α) :
    ((name, x) :: entries).lookup other =
      if other = name then some x else entries.lookup other := by
  rw [List.lookup_cons]
  by_cases h : other = name
  · simp [h]
  · have hne : (other == name) = false := beq_false_of_ne h
    simp [h, hne]

theorem bindType (h : scopes.Agrees (frame :: frames)) (name : String) (id : TypeId) :
    (scopes.bindType name id).Agrees (frame.bindType name id :: frames) := by
  refine h.modifyCurrent fun scope hscope => ⟨hscope.vars, fun other => ?_⟩
  show (scope.types.insert name id).find? other = ((name, id) :: frame.types).lookup other
  rw [Bindings.find?_insert, lookup_cons_eq, hscope.types other]

theorem defineVariable (h : scopes.Agrees (frame :: frames)) {vars : VariableArena}
    (hname : vars.nameOf id = name) :
    (scopes.defineVariable name id).Agrees (frame.bindVariable vars id :: frames) := by
  refine h.modifyCurrent fun scope hscope => ⟨fun other => ?_, hscope.types⟩
  show (scope.vars.insert name id).find? other =
    ((vars.nameOf id, id) :: frame.vars).lookup other
  rw [Bindings.find?_insert, lookup_cons_eq, hscope.vars other, hname]

theorem exportType (h : scopes.Agrees (frame :: frames)) (name : String) (id : TypeId) :
    (scopes.exportType name id).Agrees (frame :: frames) :=
  h.modifyCurrent fun _ hscope => ⟨hscope.vars, hscope.types⟩

theorem exportVariable (h : scopes.Agrees (frame :: frames)) (name : String) (id : VariableId) :
    (scopes.exportVariable name id).Agrees (frame :: frames) :=
  h.modifyCurrent fun _ hscope => ⟨hscope.vars, hscope.types⟩

end ScopeStack.Agrees

/-! ## Named variables -/

/-- The name means a variable of that name. -/
def VariableArena.Named (vars : VariableArena) (name : String) (id : VariableId) : Prop :=
  ∃ v, vars.get? id = some v ∧ v.name = name

theorem VariableArena.Named.mono {b : VariableArena} (h : a.Named name id)
    (hab : a.vars <+: b.vars) : b.Named name id := by
  obtain ⟨v, hv, hname⟩ := h
  exact ⟨v, get?_of_prefix hab hv, hname⟩

theorem VariableArena.Named.nameOf_eq (h : a.Named name id) : a.nameOf id = name := by
  obtain ⟨v, hv, hname⟩ := h
  rw [nameOf_of_get? hv, hname]

theorem VariableArena.HasAll.named (h : a.HasAll ids) (hid : id ∈ ids) :
    a.Named (a.nameOf id) id := by
  obtain ⟨v, hv⟩ := h id hid
  exact ⟨v, hv, (nameOf_of_get? hv).symm⟩

/-- A scope binds and exports variables under their names. -/
structure Scope.Named (vars : VariableArena) (scope : Scope) : Prop where
  bound {name : String} {id : VariableId} : scope.vars.find? name = some id → vars.Named name id
  exported {name : String} {id : VariableId} : scope.exportedVariables.find? name = some id →
    vars.Named name id

/-- All open scopes bind and export variables under their names. -/
def ScopeStack.Named (vars : VariableArena) (scopes : ScopeStack) : Prop :=
  ∀ scope ∈ scopes.scopes, scope.Named vars

theorem Bindings.named_insert {vars : VariableArena} {b : Bindings VariableId}
    (hid : vars.Named name id) (h : ∀ {name id}, b.find? name = some id → vars.Named name id)
    {name' : String} {id' : VariableId} (hfind : (b.insert name id).find? name' = some id') :
    vars.Named name' id' := by
  rw [find?_insert] at hfind
  split at hfind
  · next heq =>
    cases hfind
    rw [heq]
    exact hid
  · exact h hfind

namespace ScopeStack.Named

variable {vars : VariableArena} {scopes : ScopeStack}

theorem mono {b : VariableArena} (h : scopes.Named a) (hab : a.vars <+: b.vars) :
    scopes.Named b := fun scope hscope =>
  ⟨fun hid => ((h scope hscope).bound hid).mono hab,
    fun hid => ((h scope hscope).exported hid).mono hab⟩

theorem resolve (h : scopes.Named vars) (hid : scopes.resolveVariable name = some id) :
    vars.Named name id := by
  obtain ⟨scope, hscope, hfind⟩ := List.exists_of_findSome?_eq_some hid
  exact (h scope hscope).bound hfind

theorem modifyCurrent (h : scopes.Named vars) {f : Scope → Scope}
    (hf : ∀ scope, scope.Named vars → (f scope).Named vars) :
    (scopes.modifyCurrent f).Named vars := by
  obtain ⟨scopes⟩ := scopes
  cases scopes with
  | nil => exact h
  | cons scope rest =>
    intro x hx
    rcases List.mem_cons.1 hx with rfl | hx
    · exact hf scope (h scope List.mem_cons_self)
    · exact h x (List.mem_cons_of_mem _ hx)

theorem bindType (h : scopes.Named vars) (name : String) (id : TypeId) :
    (scopes.bindType name id).Named vars :=
  h.modifyCurrent fun _ hscope => ⟨hscope.bound, hscope.exported⟩

theorem exportType (h : scopes.Named vars) (name : String) (id : TypeId) :
    (scopes.exportType name id).Named vars :=
  h.modifyCurrent fun _ hscope => ⟨hscope.bound, hscope.exported⟩

theorem defineVariable (h : scopes.Named vars) (hid : vars.Named name id) :
    (scopes.defineVariable name id).Named vars :=
  h.modifyCurrent fun _ hscope => ⟨Bindings.named_insert hid hscope.bound, hscope.exported⟩

theorem exportVariable (h : scopes.Named vars) (hid : vars.Named name id) :
    (scopes.exportVariable name id).Named vars :=
  h.modifyCurrent fun _ hscope => ⟨hscope.bound, Bindings.named_insert hid hscope.exported⟩

end ScopeStack.Named

/-! ## Statements -/

/-- Loading a module adds variables at most, and the module exports variables under their names. -/
def LoadsNamed (load : Path → String → StateM Session (Option Module)) : Prop :=
  ∀ {path text s m t}, load path text s = (some m, t) →
    s.vars.vars <+: t.vars.vars ∧ m.block.scope.Named t.vars

namespace Grammar

variable {env : ParserEnv} {s t : ParserState} {frame : Frame} {frames : List Frame}
  {vars : VariableArena} {text : String}

theorem selected_of_resolved {e : Expr} (h : e.Resolved s t) (hagrees : s.scopes.Agrees frames)
    (hnamed : s.scopes.Named s.session.vars) (hvars : t.session.vars.vars <+: vars.vars)
    (hwords : s.stream.words ⊆ Token.words text) : e.Selected text vars frames := by
  obtain ⟨token, htoken, hkind, hmeans⟩ := h
  have hreading : .ok token ∈ Token.readings text :=
    Token.mem_readings_of_mem_words (hwords htoken)
  have hslice : token.span.slice? text = some token.text :=
    Token.slice?_of_mem_readings hreading (by rw [hkind]; decide)
  rw [hagrees.resolveVariable_eq, hagrees.resolveType_eq] at hmeans
  unfold Expr.Selected
  cases hvariable : Frame.findVariable? frames token.text with
  | some id =>
    rw [hvariable] at hmeans
    obtain ⟨between, hbefore, hafter, rfl⟩ := hmeans
    obtain ⟨v, hv, hname⟩ := hnamed.resolve ((hagrees.resolveVariable_eq _).trans hvariable)
    have htype : between.typeOf id = v.type := by
      unfold VariableArena.typeOf
      rw [VariableArena.get?_of_prefix hbefore hv]
      rfl
    refine ⟨token.text, hslice, ?_⟩
    rw [hvariable]
    refine ⟨v, ?_, hname, by rw [htype]; rfl⟩
    exact VariableArena.get?_of_prefix (hbefore.trans (hafter.trans hvars)) hv
  | none =>
    rw [hvariable] at hmeans
    cases htype : Frame.findType? frames token.text with
    | none =>
      rw [htype] at hmeans
      exact hmeans.elim
    | some id =>
      rw [htype] at hmeans
      subst hmeans
      refine ⟨token.text, hslice, ?_⟩
      rw [hvariable, htype]
      rfl

theorem foldl_bindNamed {scopes : ScopeStack} (hids : a.HasAll ids) (hvars : a.vars <+: vars.vars)
    (hagrees : scopes.Agrees (frame :: frames)) (hnamed : scopes.Named a) :
    (ids.foldl (.bindNamed a) scopes).Agrees (ids.foldl (.bindVariable vars) frame :: frames) ∧
      (ids.foldl (.bindNamed a) scopes).Named a := by
  induction ids generalizing scopes frame with
  | nil => exact ⟨hagrees, hnamed⟩
  | cons id ids ih =>
    have hid := hids.named List.mem_cons_self
    have hname : vars.nameOf id = a.nameOf id := (hid.mono hvars).nameOf_eq
    refine ih (fun id' hid' => hids id' (List.mem_cons_of_mem _ hid')) ?_ ?_
    · exact hagrees.defineVariable hname
    · exact hnamed.defineVariable hid

theorem foldl_exportNamed {scopes : ScopeStack} (hids : a.HasAll ids)
    (hagrees : scopes.Agrees (frame :: frames)) (hnamed : scopes.Named a) :
    (ids.foldl (.exportNamed a) scopes).Agrees (frame :: frames) ∧
      (ids.foldl (.exportNamed a) scopes).Named a := by
  induction ids generalizing scopes with
  | nil => exact ⟨hagrees, hnamed⟩
  | cons id ids ih =>
    refine ih (fun id' hid' => hids id' (List.mem_cons_of_mem _ hid')) ?_ ?_
    · exact hagrees.exportVariable _ id
    · exact hnamed.exportVariable (hids.named List.mem_cons_self)

theorem takesFrom_agrees {source : Module} {scopes scopes' : ScopeStack}
    {names : List (String × Span)} {es : List Expr} (hsource : source.block.scope.Named a)
    (hvars : a.vars <+: vars.vars) (h : scopes.TakesFrom source names es scopes')
    (hagrees : scopes.Agrees (frame :: frames)) (hnamed : scopes.Named a) :
    scopes'.Agrees (es.foldl (.bindImported vars) frame :: frames) ∧ scopes'.Named a := by
  induction h generalizing frame with
  | nil => exact ⟨hagrees, hnamed⟩
  | takesVariable hfind _ ih =>
    have hid := hsource.exported hfind
    exact ih (hagrees.defineVariable (hid.mono hvars).nameOf_eq) (hnamed.defineVariable hid)
  | takesType hfind _ _ ih => exact ih (hagrees.bindType _ _) (hnamed.bindType _ _)

/-- The scopes of a state agree with the frames, and bind variables under their names. -/
structure Scoped (s : ParserState) (frames : List Frame) : Prop where
  agrees : s.scopes.Agrees frames
  named : s.scopes.Named s.session.vars

/-- Variables are only added. -/
theorem Effect.vars_prefix (h : Effect env s m t) (hload : LoadsNamed env.load) :
    s.session.vars.vars <+: t.session.vars.vars := by
  cases h with
  | definition hkeeps | exportedDefinition hkeeps | locals hkeeps | exportedLocals hkeeps
  | externVariable hkeeps | externFunction hkeeps => exact hkeeps.vars
  | call hst => exact hst.vars
  | imports _ _ _ hrun => exact (hload hrun).1

/-- A statement leads from frames to frames. -/
theorem Effect.scoped (h : Effect env s m t) (hload : LoadsNamed env.load)
    (hs : Scoped s (frame :: frames)) (hvars : t.session.vars.vars <+: vars.vars) :
    Scoped t (frame.after vars m :: frames) := by
  have hnamed := hs.named.mono (h.vars_prefix hload)
  cases h with
  | definition _ hscopes =>
    refine ⟨?_, ?_⟩ <;> rw [hscopes]
    · exact hs.agrees.bindType _ _
    · exact hnamed.bindType _ _
  | exportedDefinition _ hscopes =>
    refine ⟨?_, ?_⟩ <;> rw [hscopes]
    · exact (hs.agrees.bindType _ _).exportType _ _
    · exact (hnamed.bindType _ _).exportType _ _
  | locals _ _ hall hscopes =>
    obtain ⟨hagrees', hnamed'⟩ := foldl_bindNamed hall hvars hs.agrees hnamed
    refine ⟨?_, ?_⟩ <;> rw [hscopes]
    · exact hagrees'
    · exact hnamed'
  | exportedLocals _ _ hall hscopes =>
    obtain ⟨hagrees', hnamed'⟩ := foldl_bindNamed hall hvars hs.agrees hnamed
    obtain ⟨hagrees'', hnamed''⟩ := foldl_exportNamed hall hagrees' hnamed'
    refine ⟨?_, ?_⟩ <;> rw [hscopes]
    · exact hagrees''
    · exact hnamed''
  | externVariable _ hall hscopes | externFunction _ hall hscopes =>
    obtain ⟨hagrees', hnamed'⟩ := foldl_bindNamed hall hvars hs.agrees hnamed
    refine ⟨?_, ?_⟩ <;> rw [hscopes]
    · exact hagrees'
    · exact hnamed'
  | @call e _ _ hst hcall =>
    have hafter : frame.bindDefinition e = frame := by
      cases e <;> first | rfl | cases hcall
    refine ⟨?_, hst.scopes ▸ hnamed⟩
    show t.scopes.Agrees (frame.bindDefinition e :: frames)
    rw [hafter, hst.scopes]
    exact hs.agrees
  | imports _ _ _ hrun _ htakes =>
    obtain ⟨hagrees', hnamed'⟩ := takesFrom_agrees (hload hrun).2 hvars htakes hs.agrees hnamed
    exact ⟨hagrees', hnamed'⟩

/-- The names in a statement mean what the frames before it say. -/
theorem Effect.selected (h : Effect env s m t) (hs : Scoped s frames)
    (hvars : t.session.vars.vars <+: vars.vars) (hwords : s.stream.words ⊆ Token.words text) :
    ∀ use ∈ m.uses vars frames, use.2.Selected text vars use.1 := by
  have hall : ∀ {es : List Expr}, (∀ n ∈ es, n.Resolved s t) →
      ∀ use ∈ es.map (frames, ·), use.2.Selected text vars use.1 := by
    intro es hes use huse
    obtain ⟨n, hn, rfl⟩ := List.mem_map.1 huse
    exact selected_of_resolved (hes n hn) hs.agrees hs.named hvars hwords
  cases h with
  | definition => exact nofun
  | exportedDefinition => exact nofun
  | locals _ hnames | exportedLocals _ hnames => exact hall (Trait.names_of_list hnames)
  | externVariable => exact nofun
  | externFunction => exact nofun
  | call _ _ hnames => exact hall hnames
  | imports => exact nofun

/-! ## Boundaries -/

theorem rootScope_agrees : rootScope.Agrees .root := ⟨fun _ => rfl, fun _ => rfl⟩

theorem rootScope_named (vars : VariableArena) : rootScope.Named vars := ⟨nofun, nofun⟩

theorem Boundary.vars_prefix (h : Boundary env start room blocks s) (hload : LoadsNamed env.load) :
    start.session.vars.vars <+: s.session.vars.vars := by
  induction h with
  | start => exact List.prefix_refl _
  | semicolon _ _ ih => exact ih
  | statement _ hkind hrun ih =>
    obtain ⟨u, heffect, rfl⟩ := (statementWithin_effect _ hkind).ok hrun
    exact ih.trans (heffect.vars_prefix hload)
  | enter _ _ _ ih => exact ih
  | leave _ _ ih => exact ih

/-- The scopes at a boundary agree with the frames of the open blocks. -/
theorem Boundary.scoped (h : Boundary env start room blocks s) (hload : LoadsNamed env.load)
    (hstart : start.scopes.scopes = []) (hvars : s.session.vars.vars <+: vars.vars) :
    Scoped s (Frame.inForce vars blocks) := by
  induction h with
  | start =>
    have hscopes : (begun start).scopes.scopes = [rootScope] := by
      show rootScope :: start.scopes.scopes = _
      rw [hstart]
    constructor
    · unfold ScopeStack.Agrees
      rw [hscopes]
      exact .cons rootScope_agrees .nil
    · unfold ScopeStack.Named
      rw [hscopes]
      intro scope hscope
      rw [List.mem_singleton.1 hscope]
      exact rootScope_named _
  | semicolon _ _ ih =>
    have hs := ih hvars
    exact ⟨hs.agrees, hs.named⟩
  | statement _ hkind hrun ih =>
    obtain ⟨u, heffect, rfl⟩ := (statementWithin_effect _ hkind).ok hrun
    have hs := ih ((heffect.vars_prefix hload).trans hvars)
    have ht := heffect.scoped hload ⟨hs.agrees, hs.named⟩ hvars
    exact ⟨ht.agrees, ht.named⟩
  | enter _ _ _ ih =>
    have hs := ih hvars
    refine ⟨.cons ⟨fun _ => rfl, fun _ => rfl⟩ hs.agrees, ?_⟩
    intro scope hscope
    rcases List.mem_cons.1 hscope with rfl | hscope
    · exact ⟨nofun, nofun⟩
    · exact hs.named scope hscope
  | @leave room inner body blocks s span _ _ ih =>
    have hs := ih hvars
    obtain ⟨hagrees, hnamed⟩ := hs
    refine ⟨?_, fun scope hscope => hnamed scope (List.mem_of_mem_tail hscope)⟩
    show List.Forall₂ Scope.Agrees s.scopes.scopes.tail (Frame.inForce vars (body :: blocks))
    unfold ScopeStack.Agrees at hagrees
    cases hscopes : s.scopes.scopes with
    | nil =>
      rw [hscopes] at hagrees
      cases hagrees
    | cons scope rest =>
      rw [hscopes] at hagrees
      cases hagrees with
      | cons _ hrest => exact hrest

end Grammar

/-! ## Uses so far -/

/-- The names that stand for a value in the statements completed so far, given as for
`Frame.inForce`. -/
def Stmt.usesSoFar (vars : VariableArena) : List (List Stmt) → List (List Frame × Expr)
  | [] => []
  | body :: blocks =>
    Stmt.usesOf vars (Frame.inForce vars blocks) (.initial blocks) body.reverse ++
      usesSoFar vars blocks

theorem Stmt.usesOf_concat (vars : VariableArena) (outer : List Frame) (frame : Frame)
    (body : List Stmt) (m : Stmt) :
    Stmt.usesOf vars outer frame (body ++ [m]) = Stmt.usesOf vars outer frame body ++
      m.uses vars (body.foldl (·.after vars ·) frame :: outer) := by
  induction body generalizing frame with
  | nil => simp [Stmt.usesOf]
  | cons m' body ih =>
    rw [List.cons_append, Stmt.usesOf, Stmt.usesOf, ih, List.append_assoc]
    rfl

theorem Stmt.mem_usesSoFar_cons {vars : VariableArena} {body : List Stmt}
    {use : List Frame × Expr} :
    use ∈ Stmt.usesSoFar vars ((m :: body) :: blocks) ↔
      use ∈ m.uses vars (Frame.inForce vars (body :: blocks)) ∨
        use ∈ Stmt.usesSoFar vars (body :: blocks) := by
  have hframe : body.reverse.foldl (·.after vars ·) (Frame.initial blocks) =
      body.foldr (fun m f => f.after vars m) (Frame.initial blocks) := List.foldl_reverse
  unfold usesSoFar
  rw [List.reverse_cons, usesOf_concat, hframe, List.mem_append, List.mem_append, List.mem_append]
  show (_ ∨ use ∈ m.uses vars (Frame.inForce vars (body :: blocks))) ∨ _ ↔ _
  tauto

namespace Grammar

/-- The names so far mean what the frames in force where they stand say. -/
theorem Boundary.selected {env : ParserEnv} {s : ParserState} {vars : VariableArena} {text : String}
    (h : Boundary env start room blocks s) (hload : LoadsNamed env.load)
    (hstart : start.scopes.scopes = []) (hwords : start.stream.words ⊆ Token.words text)
    (hvars : s.session.vars.vars <+: vars.vars) :
    ∀ use ∈ Stmt.usesSoFar vars blocks, use.2.Selected text vars use.1 := by
  induction h with
  | start => exact nofun
  | semicolon _ _ ih => exact ih hvars
  | statement hs hkind hrun ih =>
    obtain ⟨u, heffect, rfl⟩ := (statementWithin_effect _ hkind).ok hrun
    have hbefore := (heffect.vars_prefix hload).trans hvars
    have hscoped := hs.scoped hload hstart hbefore
    have hopened : (opened _).stream.words ⊆ Token.words text := fun _ hw =>
      hwords (hs.moves.words_suffix.subset hw)
    intro use huse
    rcases Stmt.mem_usesSoFar_cons.1 huse with huse | huse
    · exact heffect.selected ⟨hscoped.agrees, hscoped.named⟩ hvars hopened use huse
    · exact ih hbefore use huse
  | enter _ _ _ ih => exact ih hvars
  | leave _ _ ih =>
    intro use huse
    -- the statements of the nested block now belong to one statement of the outer block
    refine ih hvars use (List.mem_append.2 ?_)
    exact Stmt.mem_usesSoFar_cons.1 huse

/-- While a module is read, the statement that is due is refused with the fault `f`; where this
stands the text is the name `x`, and the frames in force bind nothing under it. -/
def Unbound (env : ParserEnv) (start : ParserState) (text : String) (f : Fault) (x : String) :
    Prop :=
  ∃ room blocks s t, Boundary env start room blocks s ∧
    statementWithin room env s = (.error f, t) ∧ f.span.slice? text = some x ∧
    Frame.findVariable? (Frame.inForce s.session.vars blocks) x = none ∧
    Frame.findType? (Frame.inForce s.session.vars blocks) x = none

/-- A name that is reported as unknown is bound by no frame. -/
theorem Traced.unbound {env : ParserEnv} {text x : String} {f : Fault} {session : Session}
    (h : Traced env start f session)
    (hload : LoadsNamed env.load) (hstart : start.scopes.scopes = [])
    (hwords : start.stream.words ⊆ Token.words text)
    (hupcoming : start.stream.upcoming ⊆ Token.readings text)
    (hcause : f.cause = .unknownIdentifier x) : Unbound env start text f x := by
  have hlocal : ¬ f.cause.Local := by
    rw [hcause]
    exact id
  obtain ⟨room, blocks, s, t, hs, hrun, hrefused, hnone⟩ :=
    h.statement_of_cause hupcoming hlocal fun cause => by rw [hcause]; nofun
  cases hrefused with
  | circular _ _ hf =>
    rw [hf] at hcause
    cases hcause
  | failed => cases hcause
  | admitted hf =>
    cases hf.1 with
    | lexical hf => exact absurd hf hnone
    | here hf => exact absurd hf hlocal
    | @unknown token htoken hident hvariable htype =>
      cases hcause
      have hagrees := (hs.scoped hload hstart (List.prefix_refl _)).agrees
      have hreading : .ok token ∈ Token.readings text :=
        Token.mem_readings_of_mem_words (hwords (hs.moves.words_suffix.subset htoken))
      refine ⟨room, blocks, s, t, hs, hrun, ?_, ?_, ?_⟩
      · exact Token.slice?_of_mem_readings hreading (by rw [hident]; decide)
      · exact (hagrees.resolveVariable_eq _).symm.trans hvariable
      · exact (hagrees.resolveType_eq _).symm.trans htype

end Grammar

end TypedLua
