import CallFlow.Proofs.FileFlow.File
import CallFlow.Proofs.FileFlow.Tracing

/-!
# Hoisting covers the walk

All names that `var` binds in a body are declared in the scope of the body before anything in it is
walked. On the way the walk declares some of them once more. There `var` still belongs to the scope
of the body, as only blocks have been opened since, so that the name keeps the symbol that it has.
-/

namespace CallFlow

open Syntax

/-! ## The scope that `var` belongs to -/

theorem FlowState.Later.hoistsTo {s t : FlowState} (h : s.Later t) {scope root : ScopeId}
    (hroot : s.scopes.HoistsTo scope root) : t.scopes.HoistsTo scope root :=
  ScopeTree.find?_chain_of_kept h.scopes h.size_scopes_le hroot

namespace Walk

/-- On the way through scopes that `var` passes it belongs where it did at the start. -/
theorem Runs.hoistsTo {α : Type} {walk : Walk α} {place : Place} {s : FileState} {es : List Event}
    (h : Runs walk place s es) {root : ScopeId}
    (hroot : s.flow.scopes.HoistsTo place.scope root) :
    ∀ e ∈ es, e.within.all (fun kind => !kind.hoistsVars) = true →
      e.state.flow.scopes.HoistsTo e.place.scope root := by
  induction h with
  | plain => exact List.forall_mem_nil _
  | resolve | declare | declareVars => exact List.forall_mem_singleton.2 fun _ => hroot
  | bind h _ ih ih' =>
    exact List.forall_mem_append.2 ⟨ih hroot, ih' (h.continues.later.hoistsTo hroot)⟩
  | @inScope _ _ kind place s _ _ ih =>
    refine List.forall_mem_map.2 fun e he hpasses => ?_
    obtain ⟨hkind, hrest⟩ := Bool.and_eq_true_iff.1 hpasses
    exact ih (hroot.create (by simpa using hkind)) e he hrest
  | @function name own isArrow f place s _ _ ih =>
    refine List.forall_mem_cons.2 ⟨fun _ => hroot, List.forall_mem_map.2 fun e _ hpasses => ?_⟩
    -- no `var` passes the scope of a function
    have hkind : (functionKind isArrow).hoistsVars = true := by cases isArrow <;> rfl
    obtain ⟨hnot, -⟩ := Bool.and_eq_true_iff.1 hpasses
    simp [hkind] at hnot

end Walk

/-! ## What is declared before -/

namespace FlowState

/-- Each of these names is declared in this very scope. -/
def HasNames (s : FlowState) (root : ScopeId) (names : List String) : Prop :=
  ∀ name ∈ names, ∃ x, s.symbols.binding? root name = some x

theorem HasNames.continues {s t : FlowState} {root : ScopeId} {names : List String}
    (h : s.HasNames root names) (ht : s.Continues t) : t.HasNames root names :=
  fun name hname => (h name hname).imp (ht.later.bindings root name)

theorem HasNames.mono {s : FlowState} {root : ScopeId} {names names' : List String}
    (h : s.HasNames root names) (hsub : names' ⊆ names) : s.HasNames root names' :=
  fun name hname => h name (hsub hname)

/-- Names are there when they have been declared. -/
theorem hasNames_declareAll (root : ScopeId) (kind : SymbolKind) (names : List String)
    (place : Place) (s : FileState) :
    ((names.forM (Walk.declareIn root kind)) place s).2.flow.HasNames root names := by
  induction names generalizing s with
  | nil => exact nofun
  | cons name names ih =>
    refine List.forall_mem_cons.2 ⟨?_, ih (s.declare name kind root)⟩
    have hdeclared := s.flow.symbols.binding?_declare name kind root root name
    rw [if_pos ⟨rfl, rfl⟩] at hdeclared
    exact ⟨_, (Continues.declareAll root kind names place (s.declare name kind root)).later.bindings
      root name _ hdeclared⟩

end FlowState

namespace Walk

/-- Names that are there are declared to no effect. -/
theorem declareAll_of_hasNames {root : ScopeId} {names : List String} {s : FileState}
    (h : s.flow.HasNames root names) (kind : SymbolKind) (place : Place) :
    (names.forM (declareIn root kind)) place s = ((), s) := by
  induction names with
  | nil => rfl
  | cons name names ih =>
    obtain ⟨⟨x, hx⟩, hrest⟩ := List.forall_mem_cons.1 h
    have hone : declareIn root kind name place s = ((), s) := by
      rw [declareIn, SymbolTable.declare_of_binding? hx]
    show (names.forM (declareIn root kind)) place (declareIn root kind name place s).2 = _
    rw [hone]
    exact ih hrest

/-- What is declared by `var` on the way, for the body around, has been declared in its scope
`root` when the body was entered: declaring it again gives that symbol and changes nothing. -/
def Covered (root : ScopeId) (entered : FileState) (es : List Event) : Prop :=
  ∀ e ∈ es, e.within.all ScopeKind.nests = true → ∀ names, e.act = .vars names →
    e.state.flow.scopes.varScope e.place.scope = root ∧
      declareVars names e.place e.state = ((), e.state) ∧
      ∀ name ∈ names, ∃ x, entered.flow.symbols.binding? root name = some x ∧
        e.state.flow.symbols.declare name .variable root = (x, e.state.flow.symbols)

/-- As long as only blocks are opened, every `var` declares a name that the scope of the body has.
-/
theorem Runs.covered {α : Type} {walk : Walk α} {place : Place} {entered : FileState}
    {es : List Event} (h : Runs walk place entered es) {root : ScopeId}
    (hroot : entered.flow.scopes.HoistsTo place.scope root)
    (hentered : entered.flow.HasNames root (Event.varsThrough ScopeKind.nests es)) :
    Covered root entered es := by
  intro e he hwithin names hact
  have hpasses : e.within.all (fun kind => !kind.hoistsVars) = true := by
    refine List.all_eq_true.2 fun kind hkind => ?_
    have hnests := List.all_eq_true.1 hwithin kind hkind
    revert hnests
    cases kind <;> decide
  have hscope := (h.hoistsTo hroot e he hpasses).varScope_eq
  have hnames : entered.flow.HasNames root names := fun name hname =>
    hentered name (Event.mem_varsThrough.2 ⟨e, he, hwithin, by rw [hact]; exact hname⟩)
  have hkept := h.continues_of_mem e he
  refine ⟨hscope, ?_, fun name hname => ?_⟩
  · rw [Walk.declareVars, hscope]
    exact declareAll_of_hasNames (hnames.continues hkept) .variable e.place
  · obtain ⟨x, hx⟩ := hnames name hname
    exact ⟨x, hx, SymbolTable.declare_of_binding? (hkept.later.bindings root name x hx) .variable⟩

/-! ### Entering a body -/

/-- A function is entered in a new scope, to which `var` belongs. -/
theorem scope?_entry (name : Option String) (isArrow : Bool) (f : Func) (place : Place)
    (s : FileState) :
    let e := entry name isArrow f place s
    e.place.scope = ⟨s.flow.scopes.size⟩ ∧
      e.state.flow.scopes.scope? e.place.scope = some ⟨functionKind isArrow, some place.scope⟩ ∧
      e.state.flow.scopes.HoistsTo e.place.scope e.place.scope := by
  have hkind : (functionKind isArrow).hoistsVars = true := by cases isArrow <;> rfl
  exact ⟨rfl, (ScopeTree.scope?_create ..).trans (if_pos rfl),
    ScopeTree.hoistsTo_create_self _ hkind place.scope⟩

/-- A body has the names of every `var` in it once it is hoisted. -/
theorem hasNames_hoistBody (body : Body) (place : Place) (s : FileState) :
    (hoistBody body place s).2.flow.HasNames place.scope body.varNames := by
  cases body with
  | block stmts =>
    exact FlowState.hasNames_declareAll place.scope .variable (Stmt.varNamesAll stmts) place
      (hoistAll stmts place s).2
  | expr | absent => exact nofun

theorem hasNames_declareHead (value : VertexId) (own : Option String) (f : Func) (place : Place)
    (s : FileState) :
    (declareHead value own f place s).2.flow.HasNames place.scope f.body.varNames :=
  hasNames_hoistBody f.body place _

/-- Where a function has been entered, its whole inside can be listed, and what `var` declares in
it is covered. -/
theorem covered_walkInside (name own : Option String) (isArrow : Bool) (f : Func) (place : Place)
    (s : FileState) :
    let e := entry name isArrow f place s
    let entered := (declareHead e.value own f e.place e.state).2
    ∃ es, (walkInside e.id f).Runs e.place entered es ∧
      Event.varsThrough ScopeKind.nests es = f.body.redeclared ∧
        Covered e.place.scope entered es := by
  intro e entered
  have hinside : Traced false (walkInside e.id f) f.body.redeclared :=
    .step (traced_bindParams false e.id 1 f.params) fun _ => traced_visitBody false e.id f.body
  obtain ⟨es, hruns, hvars, -⟩ := hinside e.place entered
  obtain ⟨_, hhead, -⟩ := Traced.declareHead e.value own f e.place e.state
  refine ⟨es, hruns, hvars, hruns.covered ?_ ?_⟩
  · exact hhead.continues.later.hoistsTo (scope?_entry name isArrow f place s).2.2
  · rw [hvars]
    exact (hasNames_declareHead e.value own f e.place e.state).mono f.body.redeclared_subset

/-- An item of a module has them once it is hoisted. -/
theorem hasNames_hoistItem (item : ModuleItem) (place : Place) (s : FileState) :
    (hoistItem item place s).2.flow.HasNames place.scope item.redeclared := by
  cases item with
  | stmt stmt =>
    -- the names of the statement are declared last
    have hlast (before : FileState) :
        (declare .variable stmt.varNames place before).2.flow.HasNames place.scope
          stmt.redeclared :=
      (FlowState.hasNames_declareAll place.scope .variable stmt.varNames place before).mono
        stmt.redeclared_subset
    cases stmt with
    | decl d => exact hlast (hoist d place s).2
    | _ => exact hlast s
  | _ => exact nofun

/-- Hoisting one item keeps the names of the others. -/
theorem hasNames_hoistItems (items : List ModuleItem) (place : Place) (s : FileState) :
    (items.forM hoistItem place s).2.flow.HasNames place.scope
      (items.flatMap ModuleItem.redeclared) := by
  induction items generalizing s with
  | nil => exact nofun
  | cons item items ih =>
    obtain ⟨_, hrest, -⟩ := Traced.forM traced_hoistItem items place (hoistItem item place s).2
    have hfirst := (hasNames_hoistItem item place s).continues hrest.continues
    exact fun name hname => (List.mem_append.1 hname).elim (hfirst name) (ih _ name)

/-- The items of a module are visited when all of them are hoisted, so that every `var` finds its
name. -/
theorem covered_visitItems (state : FlowState) (path : Path) (lines : LineTable) (m : Module) :
    let place := state.opening lines
    let entered := (m.items.forM hoistItem place (state.opened path)).2
    ∃ es, (m.items.forM visitItem).Runs place entered es ∧
      Event.varsThrough ScopeKind.nests es = m.items.flatMap ModuleItem.redeclared ∧
        Covered place.scope entered es := by
  intro place entered
  have hmodule : (state.opened path).flow.scopes.HoistsTo place.scope place.scope :=
    state.scopes.hoistsTo_create_self rfl ScopeTree.global
  obtain ⟨_, hhead, -⟩ := Traced.forM traced_hoistItem m.items place (state.opened path)
  obtain ⟨es, hruns, hvars, -⟩ := Traced.forM (traced_visitItem false) m.items place entered
  refine ⟨es, hruns, hvars, hruns.covered (hhead.continues.later.hoistsTo hmodule) ?_⟩
  rw [hvars]
  exact hasNames_hoistItems m.items place (state.opened path)

/-- **Hoisting covers the walk.** In a function, wherever it is met, and in the module of a file,
whatever has been added before, the names that are declared by `var` on the way are those of
`redeclared`. When this happens, `var` belongs to the scope of the function or module itself, and
the name has the symbol there that it had when the scope was entered, before anything inside was
walked. So it keeps this symbol and nothing changes. -/
theorem hoisting_covers_walk :
    (∀ (name own : Option String) (isArrow : Bool) (f : Func) (place : Place) (s : FileState),
      let e := entry name isArrow f place s
      let entered := (declareHead e.value own f e.place e.state).2
      Routine.visitFunction name own isArrow f place s =
          ((e.id, place), (walkInside e.id f e.place entered).2) ∧
        entered.flow.scopes.scope? e.place.scope =
          some ⟨functionKind isArrow, some place.scope⟩ ∧
        ∃ es, (walkInside e.id f).Runs e.place entered es ∧
          Event.varsThrough ScopeKind.nests es = f.body.redeclared ∧
          Covered e.place.scope entered es) ∧
      ∀ (state : FlowState) (path : Path) (lines : LineTable) (m : Module),
        let place := state.opening lines
        let entered := (m.items.forM hoistItem place (state.opened path)).2
        (state.addFile path lines m).2 = (m.items.forM visitItem place entered).2.flow ∧
          entered.flow.scopes.scope? place.scope = some ⟨.moduleScope, some ScopeTree.global⟩ ∧
          ∃ es, (m.items.forM visitItem).Runs place entered es ∧
            Event.varsThrough ScopeKind.nests es = m.items.flatMap ModuleItem.redeclared ∧
            Covered place.scope entered es := by
  refine ⟨fun name own isArrow f place s => ?_, fun state path lines m => ?_⟩
  · obtain ⟨_, hhead, -⟩ := Traced.declareHead (entry name isArrow f place s).value own f
      (entry name isArrow f place s).place (entry name isArrow f place s).state
    exact ⟨Routine.visitFunction_apply name own isArrow f place s,
      hhead.continues.later.scopes _ _ (scope?_entry name isArrow f place s).2.1,
      covered_walkInside name own isArrow f place s⟩
  · obtain ⟨_, hhead, -⟩ :=
      Traced.forM traced_hoistItem m.items (state.opening lines) (state.opened path)
    refine ⟨?_, ?_, covered_visitItems state path lines m⟩
    · rw [FlowState.addFile_eq]
      rfl
    · exact hhead.continues.later.scopes _ _ ((ScopeTree.scope?_create ..).trans (if_pos rfl))

end Walk

end CallFlow
