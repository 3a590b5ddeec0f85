import CallFlow.Proofs.FileFlow.Visibility

/-!
# What a function declares and what its parameter list sees

A function has one scope for the name that it has inside itself, for its parameters and for what its
body declares, and all of this is declared before a parameter is bound. `Heads` says what follows
for the names: each has one symbol, that of the first declaration in this order, and what stands in
the parameter list resolves to it, in a default as well as in the body.
-/

namespace CallFlow

open Syntax

/-! ## What is declared, in order -/

namespace Syntax

/-- What a declaration declares when its block is entered. -/
def Decl.declarations : Decl → List (String × SymbolKind)
  | .function name _ => [(name, .functionName)]
  | .class name _ => [(name, .className)]
  | .vars .var declarators => (Declarator.namesAll declarators).map (·, .variable)
  | .vars .let declarators => (Declarator.namesAll declarators).map (·, .variable)
  | .vars .const declarators => (Declarator.namesAll declarators).map (·, .constant)
  | .using declarators => (Declarator.namesAll declarators).map (·, .constant)
  | .inert => []

/-- The names that a statement of a block declares there, with their kinds. -/
def Stmt.declarations : Stmt → List (String × SymbolKind)
  | .decl d => d.declarations
  | _ => []

/-- What a body declares in the scope of its function: its declarations, then every `var`. -/
def Body.declarations : Body → List (String × SymbolKind)
  | .block stmts =>
    stmts.flatMap Stmt.declarations ++ (Stmt.varNamesAll stmts).map (·, .variable)
  | .expr _ | .absent => []

/-- What a function declares in its scope. `own` is the name that it has inside itself only. -/
def Func.declarations (own : Option String) (f : Func) : List (String × SymbolKind) :=
  own.toList.map (·, .functionName) ++
    ((f.params.flatMap Param.names).map (·, .parameter) ++ f.body.declarations)

end Syntax

namespace SymbolTable

/-- Declares names in a scope, one after the other. -/
def declareAll (table : SymbolTable) (root : ScopeId) (ds : List (String × SymbolKind)) :
    SymbolTable :=
  ds.foldl (fun table d => (table.declare d.1 d.2 root).2) table

/-- The symbol that a name has in this very scope. -/
def symbolIn (table : SymbolTable) (scope : ScopeId) (name : String) : Option Symbol :=
  (table.binding? scope name).bind table.symbol?

variable {table : SymbolTable}

theorem declareAll_append (root : ScopeId) (ds ds' : List (String × SymbolKind)) :
    table.declareAll root (ds ++ ds') = (table.declareAll root ds).declareAll root ds' :=
  List.foldl_append

/-- A name has its old symbol in a scope, or the one of the declaration. -/
theorem symbolIn_declare (h : table.Faithful) (root : ScopeId) (d : String × SymbolKind)
    (name : String) : (table.declare d.1 d.2 root).2.symbolIn root name =
      (table.symbolIn root name).or (if d.1 = name then some ⟨name, d.2, root⟩ else none) := by
  rw [symbolIn, symbolIn, binding?_declare]
  cases hold : table.binding? root name with
  | some x =>
    -- the name keeps its symbol, whether it is declared again or another one is
    obtain ⟨kind, hsymbol⟩ := (h root name x).1 hold
    have hsame : (if root = root ∧ name = d.1 then
        some ((table.binding? root d.1).getD ⟨table.size⟩) else some x) = some x := by
      split
      · next heq => rw [← heq.2, hold, Option.getD_some]
      · rfl
    rw [hsame, Option.bind_some, Option.bind_some, hsymbol, Option.some_or]
    exact symbol?_declare hsymbol d.1 d.2 root
  | none =>
    by_cases hname : d.1 = name
    · subst hname
      rw [if_pos ⟨rfl, rfl⟩, if_pos rfl, hold]
      exact symbol?_declare_eq_some_iff.2 (Or.inr ⟨hold, rfl, rfl⟩)
    · rw [if_neg fun heq => hname heq.2.symm, if_neg hname]
      rfl

/-- A name has the symbol of the first declaration of it, if it had none before. -/
theorem symbolIn_declareAll (h : table.Faithful) (root : ScopeId)
    (ds : List (String × SymbolKind)) (name : String) :
    (table.declareAll root ds).symbolIn root name =
      (table.symbolIn root name).or
        ((ds.find? fun d => d.1 = name).map fun d => ⟨name, d.2, root⟩) := by
  induction ds generalizing table with
  | nil => exact Option.or_none.symm
  | cons d ds ih =>
    refine (ih (h.declare d.1 d.2 root)).trans ?_
    rw [symbolIn_declare h, Option.or_assoc]
    refine congrArg (Option.or _) ?_
    by_cases hname : d.1 = name
    · rw [if_pos hname, List.find?_cons_of_pos (by simpa using hname)]
      rfl
    · rw [if_neg hname, List.find?_cons_of_neg (by simpa using hname)]
      rfl

/-- In other scopes nothing is declared. -/
theorem binding?_declareAll_of_ne {root a : ScopeId} (hne : a ≠ root)
    (ds : List (String × SymbolKind)) (name : String) :
    (table.declareAll root ds).binding? a name = table.binding? a name := by
  induction ds generalizing table with
  | nil => rfl
  | cons d ds ih =>
    refine ih.trans ?_
    rw [binding?_declare, if_neg fun heq => hne heq.1]

theorem binding?_declareAll_of_some {root a : ScopeId} {name : String} {x : SymbolId}
    (h : table.binding? a name = some x) (ds : List (String × SymbolKind)) :
    (table.declareAll root ds).binding? a name = some x := by
  induction ds generalizing table with
  | nil => exact h
  | cons d ds ih => exact ih (binding?_declare_of_some h d.1 d.2 root)

end SymbolTable

/-- The name is resolved to what it denotes in a scope opened within `scope`, or else in `scope`
itself, `after` everything is declared there, or else `before` in the scope around. -/
def Event.SeesHead (u : Event) (name : String) (before : FileState) (around : ScopeId)
    (after : FileState) (scope : ScopeId) : Prop :=
  ∃ opened, u.state.flow.scopes.ancestors u.place.scope =
      opened ++ scope :: before.flow.scopes.ancestors around ∧
    (∀ a ∈ opened, scope.index < a.index) ∧
    u.state.flow.symbols.lookup u.state.flow.scopes name u.place.scope =
      ((opened.findSome? fun a => u.state.flow.symbols.binding? a name).or
        (after.flow.symbols.binding? scope name)).or
          (before.flow.symbols.lookup before.flow.scopes name around)

namespace Walk

/-! ## Walks that only declare -/

/-- In a scope that `var` belongs to, the walk does nothing but declare these names there. -/
def Declares (walk : Walk Unit) (ds : List (String × SymbolKind)) : Prop :=
  ∀ (place : Place) (s : FileState), s.flow.scopes.HoistsTo place.scope place.scope →
    (walk place s).2 =
      { s with flow := { s.flow with symbols := s.flow.symbols.declareAll place.scope ds } }

namespace Declares

variable {walk walk' : Walk Unit} {ds ds' : List (String × SymbolKind)}

theorem pure : Declares (Pure.pure ()) [] := fun _ _ _ => rfl

/-- What is declared one after the other. -/
theorem bind (h : Declares walk ds) (h' : Declares walk' ds') :
    Declares (do walk; walk') (ds ++ ds') := by
  intro place s hroot
  rw [SymbolTable.declareAll_append]
  show (walk' place (walk place s).2).2 = _
  rw [h place s hroot]
  exact h' place _ hroot

theorem forM {γ : Type} {f : γ → Walk Unit} {bound : γ → List (String × SymbolKind)}
    (hf : ∀ c, Declares (f c) (bound c)) (cs : List γ) :
    Declares (cs.forM f) (cs.flatMap bound) := by
  induction cs with
  | nil => exact .pure
  | cons c cs ih => exact (hf c).bind ih

/-- Names are declared in the table of symbols and nowhere else. -/
theorem declareIn (root : ScopeId) (kind : SymbolKind) (names : List String) (place : Place)
    (s : FileState) : ((names.forM (Walk.declareIn root kind)) place s).2 =
      { s with flow := { s.flow with
        symbols := s.flow.symbols.declareAll root (names.map (·, kind)) } } := by
  induction names generalizing s with
  | nil => rfl
  | cons name names ih => exact ih (s.declare name kind root)

theorem declare (kind : SymbolKind) (names : List String) :
    Declares (declare kind names) (names.map (·, kind)) :=
  fun place s _ => declareIn place.scope kind names place s

/-- Names that `var` declares are variables of the function. Here this is the present scope. -/
theorem declareVars (names : List String) :
    Declares (declareVars names) (names.map (·, .variable)) := by
  intro place s hroot
  rw [Walk.declareVars, hroot.varScope_eq]
  exact declareIn place.scope .variable names place s

/-- What a declaration declares. -/
theorem hoist (d : Decl) : Declares (hoist d) d.declarations := by
  cases d with
  | function name f => exact .declare _ [name]
  | «class» name c => exact .declare _ [name]
  | vars kind declarators =>
    cases kind with
    | var => exact .declareVars _
    | «let» | const => exact .declare _ _
  | «using» declarators => exact .declare _ _
  | inert => exact .pure

/-- What a body declares: its statements first, then every `var` inside of it. -/
theorem hoistBody (body : Body) : Declares (hoistBody body) body.declarations := by
  cases body with
  | block stmts =>
    have hall : Declares (hoistAll stmts) (stmts.flatMap Stmt.declarations) := by
      refine .forM (fun s => ?_) stmts
      cases s with
      | decl d => exact .hoist d
      | _ => exact .pure
    exact hall.bind (.declare .variable (Stmt.varNamesAll stmts))
  | expr | absent => exact .pure

end Declares

/-! ## Heads -/

/-- The state in which the parameters of a function are bound: all that it binds is declared. -/
def entered (name own : Option String) (isArrow : Bool) (f : Func) (place : Place)
    (s : FileState) : FileState :=
  let e := entry name isArrow f place s
  (declareHead e.value own f e.place e.state).2

/-- What is declared when a function is entered, and what its parameter list sees. The scope of the
function is that of the entry `e`; `after` is the state in which its parameters are bound. -/
structure Head (own : Option String) (f : Func) (place : Place) (s : FileState) (e : Entry)
    (after : FileState) : Prop where
  /-- The first declaration of a name gives it its symbol, and later ones give no other. -/
  symbols : ∀ name, after.flow.symbols.symbolIn e.place.scope name =
    ((f.declarations own).find? fun d => d.1 = name).map fun d => ⟨name, d.2, e.place.scope⟩
  /-- Different names have different symbols. -/
  apart : ∀ name name' x, after.flow.symbols.binding? e.place.scope name = some x →
    after.flow.symbols.binding? e.place.scope name' = some x → name = name'
  /-- The function flows to the symbol of its own name, whatever else has this name. -/
  edges : ∀ a b, (a, b) ∈ after.flow.graph.edgeSet ↔ (a, b) ∈ s.flow.graph.edgeSet ∨
    ∃ name x, own = some name ∧ after.flow.symbols.binding? e.place.scope name = some x ∧
      a = .func e.id ∧ b = .var x
  /-- What stands in the parameter list sees it. A `var` of the list itself, which only a static
  block can have, is left out. -/
  resolved : ∃ es, (bindParams e.id 1 f.params).Runs e.place after es ∧
    ∀ u ∈ es, ∀ name, u.act = .resolve name → name ∉ hoistedVars es →
      u.SeesHead name s place.scope after e.place.scope

/-- A function declares its own name, and leaves the scopes as they are. -/
theorem scopes_symbols_bindOwnName (value : VertexId) (own : Option String) (place : Place)
    (s : FileState) :
    (bindOwnName value own place s).2.flow.scopes = s.flow.scopes ∧
      (bindOwnName value own place s).2.flow.symbols =
        s.flow.symbols.declareAll place.scope (own.toList.map (·, .functionName)) := by
  cases own with
  | none => exact ⟨rfl, rfl⟩
  | some own =>
    let declared := s.declare own .functionName place.scope
    show (resolve own place declared).2.flow.scopes = _ ∧
      (resolve own place declared).2.flow.symbols = _
    rw [resolve_eq]
    exact ⟨rfl, rfl⟩

/-- All that a function binds is declared in its scope, in this order. -/
theorem declareHead_spec (value : VertexId) (own : Option String) (f : Func) {place : Place}
    {s : FileState} (hroot : s.flow.scopes.HoistsTo place.scope place.scope) :
    let t := (declareHead value own f place s).2
    t.flow.scopes = s.flow.scopes ∧
      t.flow.symbols = s.flow.symbols.declareAll place.scope (f.declarations own) ∧
      t.flow.graph = (bindOwnName value own place s).2.flow.graph := by
  intro t
  obtain ⟨hscopes, hsymbols⟩ := scopes_symbols_bindOwnName value own place s
  have hrest := (Declares.declare .parameter (f.params.flatMap Param.names)).bind
    (.hoistBody f.body)
  have ht : t = _ := hrest place (bindOwnName value own place s).2 (hscopes ▸ hroot)
  refine ⟨ht ▸ hscopes, ?_, ht ▸ rfl⟩
  rw [Func.declarations, SymbolTable.declareAll_append, ← hsymbols, ht]

section

variable (name own : Option String) (isArrow : Bool) (f : Func) (place : Place) (s : FileState)

/-- When the parameters are bound all is declared, and no other scope has been created. -/
theorem entered_spec :
    let e := entry name isArrow f place s
    let after := entered name own isArrow f place s
    after.flow.scopes = e.state.flow.scopes ∧
      after.flow.symbols = s.flow.symbols.declareAll e.place.scope (f.declarations own) ∧
      after.flow.graph = (bindOwnName e.value own e.place e.state).2.flow.graph :=
  declareHead_spec _ own f (scope?_entry name isArrow f place s).2.2

theorem continues_entered :
    s.flow.Continues (entered name own isArrow f place s).flow := by
  obtain ⟨_, hhead, -⟩ := Traced.declareHead (entry name isArrow f place s).value own f
    (entry name isArrow f place s).place (entry name isArrow f place s).state
  exact (continues_entry name isArrow f place s).trans hhead.continues

/-- The function gets the one edge to the symbol of its own name. -/
theorem mem_edgeSet_entered (a b : Vertex) :
    let e := entry name isArrow f place s
    let after := entered name own isArrow f place s
    (a, b) ∈ after.flow.graph.edgeSet ↔ (a, b) ∈ s.flow.graph.edgeSet ∨
      ∃ name x, own = some name ∧ after.flow.symbols.binding? e.place.scope name = some x ∧
        a = .func e.id ∧ b = .var x := by
  intro e after
  have hgraph : after.flow.graph = (bindOwnName e.value own e.place e.state).2.flow.graph :=
    (entered_spec name own isArrow f place s).2.2
  cases own with
  | none =>
    have hinterned : after.flow.graph = (s.flow.graph.intern (.func e.id)).2 := hgraph
    rw [hinterned, FlowGraph.edgeSet_intern]
    simp
  | some own =>
    let declared := e.state.declare own .functionName e.place.scope
    obtain ⟨x, hx⟩ : ∃ x, declared.flow.symbols.binding? e.place.scope own = some x :=
      ⟨_, (SymbolTable.binding?_declare ..).trans (if_pos ⟨rfl, rfl⟩)⟩
    have hlater : after.flow.symbols.binding? e.place.scope own = some x := by
      rw [(entered_spec name (some own) isArrow f place s).2.1]
      exact SymbolTable.binding?_declareAll_of_some hx _
    have hsize : 0 < declared.flow.scopes.size :=
      (Nat.zero_le _).trans_lt (Array.getElem?_eq_some_iff.1
        (scope?_entry name isArrow f place s).2.1).1
    -- the name that has just been declared is the one that is resolved
    have hlookup : declared.flow.symbols.lookup declared.flow.scopes own e.place.scope = some x :=
      SymbolTable.lookup_of_binding? hsize hx
    have hresolve : resolve own e.place declared = vertex (.var x) e.place declared := by
      rw [resolve_eq, hlookup]
      rfl
    have hjoined : after.flow.graph = (s.flow.graph.connect (.func e.id) (.var x)).2 := by
      rw [hgraph]
      show (edge e.value (resolve own e.place declared).1 e.place
        (resolve own e.place declared).2).2.flow.graph = _
      rw [hresolve]
      rfl
    rw [hjoined, FlowGraph.edgeSet_connect s.flow.graph (by simp), Set.mem_insert_iff]
    simp [hlater, or_comm, eq_comm]

end

section

variable {place : Place} {s : FileState} (name own : Option String) (isArrow : Bool) (f : Func)
  (hs : s.flow.Standing place.scope)
include hs

theorem standing_entered :
    (entered name own isArrow f place s).flow.Standing
      (entry name isArrow f place s).place.scope := by
  obtain ⟨_, hhead, -⟩ := Traced.declareHead (entry name isArrow f place s).value own f
    (entry name isArrow f place s).place (entry name isArrow f place s).state
  exact (hhead.standing (standing_entry name isArrow f hs).1).1

/-- Right above it is the scope that the function is written in. -/
theorem ancestors_entered :
    let scope := (entry name isArrow f place s).place.scope
    (entered name own isArrow f place s).flow.scopes.ancestors scope =
      scope :: s.flow.scopes.ancestors place.scope := by
  intro scope
  rw [(entered_spec name own isArrow f place s).1]
  exact hs.ordered.ancestors_created hs.known (functionKind isArrow)

/-- What has been bound around the function stays so. -/
theorem binding?_entered {a : ScopeId} (ha : a ∈ s.flow.scopes.ancestors place.scope)
    (x : String) : (entered name own isArrow f place s).flow.symbols.binding? a x =
      s.flow.symbols.binding? a x := by
  have hlt : a.index < s.flow.scopes.size :=
    (hs.ordered.index_le_of_mem_ancestors hs.known a ha).trans_lt hs.known
  have hne : a ≠ (entry name isArrow f place s).place.scope := by
    rintro rfl
    exact absurd hlt (Nat.lt_irrefl _)
  rw [(entered_spec name own isArrow f place s).2.1]
  exact SymbolTable.binding?_declareAll_of_ne hne _ x

/-- What happens in the parameter list sees the names of the scope, as none is declared there any
more but inside of functions. -/
theorem seesHead_of_mem {es : List Event}
    (hruns : (bindParams (entry name isArrow f place s).id 1 f.params).Runs
      (entry name isArrow f place s).place (entered name own isArrow f place s) es)
    (hapart : ∀ u ∈ es, u.within = [] → u.act.isDeclare = false) {u : Event} (hu : u ∈ es)
    {x : String} (hvar : x ∉ hoistedVars es) :
    u.SeesHead x s place.scope (entered name own isArrow f place s)
      (entry name isArrow f place s).place.scope := by
  have hafter := standing_entered name own isArrow f hs
  obtain ⟨-, opened, hopened, hnew⟩ := (hruns.standing hafter).2 u hu
  rw [ancestors_entered name own isArrow f hs] at hopened
  refine ⟨opened, hopened, fun a ha => hafter.known.trans_le (hnew a ha), ?_⟩
  -- the list declares nothing in the scopes that were there before
  have hkept : ∀ a : ScopeId, a.index < (entered name own isArrow f place s).flow.scopes.size →
      u.state.flow.symbols.binding? a x =
        (entered name own isArrow f place s).flow.symbols.binding? a x := fun a ha =>
    (hruns.binding?_eq hafter ha (fun _ => hapart) fun _ => hvar).2 u hu
  have haround : (s.flow.scopes.ancestors place.scope).findSome?
      (fun a => u.state.flow.symbols.binding? a x) =
        s.flow.symbols.lookup s.flow.scopes x place.scope := by
    rw [SymbolTable.lookup, ← List.head?_filterMap, ← List.head?_filterMap]
    refine congrArg List.head? (List.filterMap_congr fun a ha => ?_)
    have hlt : a.index < s.flow.scopes.size :=
      (hs.ordered.index_le_of_mem_ancestors hs.known a ha).trans_lt hs.known
    rw [hkept a (hlt.trans hafter.known), binding?_entered name own isArrow f hs ha]
  rw [SymbolTable.lookup, hopened, List.findSome?_append, List.findSome?_cons, haround,
    hkept _ hafter.known, Option.or_assoc]
  cases (entered name own isArrow f place s).flow.symbols.binding? _ x <;> rfl

/-- **Heads of functions.** -/
theorem head_entered (hfaithful : s.flow.symbols.Faithful) :
    Head own f place s (entry name isArrow f place s) (entered name own isArrow f place s) where
  symbols x := by
    have hnew : s.flow.symbols.binding? (entry name isArrow f place s).place.scope x = none :=
      Option.eq_none_iff_forall_ne_some.2 fun y hy => absurd (hs.bound _ x y hy) (Nat.lt_irrefl _)
    rw [(entered_spec name own isArrow f place s).2.1, SymbolTable.symbolIn_declareAll hfaithful,
      SymbolTable.symbolIn, hnew]
    rfl
  apart x y id hx hy := by
    have hafter := (continues_entered name own isArrow f place s).faithful hfaithful
    obtain ⟨kind, hkind⟩ := (hafter _ x id).1 hx
    obtain ⟨kind', hkind'⟩ := (hafter _ y id).1 hy
    exact congrArg Symbol.name (Option.some.inj (hkind.symm.trans hkind'))
  edges a b := mem_edgeSet_entered name own isArrow f place s a b
  resolved := by
    obtain ⟨es, hruns, -, hapart⟩ :=
      traced_bindParams true (entry name isArrow f place s).id 1 f.params
        (entry name isArrow f place s).place (entered name own isArrow f place s)
    exact ⟨es, hruns, fun u hu x _ hvar =>
      seesHead_of_mem name own isArrow f hs hruns (hapart rfl) hu hvar⟩

end

/-! ### The functions of a run -/

theorem Plain.functions {α : Type} {walk : Walk α} (h : Plain walk) (place : Place)
    (s : FileState) : (walk place s).2.flow.program.functions = s.flow.program.functions := by
  cases h with
  | exportAssigned target value => rw [flow_exportAssigned]
  | recordRequire chained callee args call => rw [flow_recordRequire]
  | _ => rfl

theorem functions_declareAll (root : ScopeId) (kind : SymbolKind) (names : List String)
    (place : Place) (s : FileState) :
    ((names.forM (declareIn root kind)) place s).2.flow.program.functions =
      s.flow.program.functions := by
  rw [Declares.declareIn]

/-- Every function that a run registers is one that it enters. -/
theorem Runs.exists_function {α : Type} {walk : Walk α} {place : Place} {s : FileState}
    {es : List Event} (h : Runs walk place s es) {i : ℕ}
    (hold : s.flow.program.functions.size ≤ i)
    (hnew : i < (walk place s).2.flow.program.functions.size) :
    ∃ u ∈ es, ∃ name own isArrow f, u.act = .function name own isArrow f ∧
      (entry name isArrow f u.place u.state).id = ⟨i⟩ := by
  induction h with
  | plain h place s =>
    rw [h.functions] at hnew
    exact absurd hold (not_le.2 hnew)
  | resolve name place s =>
    rw [resolve_eq] at hnew
    exact absurd hold (not_le.2 hnew)
  | declare kind names place s =>
    rw [Walk.declare, functions_declareAll] at hnew
    exact absurd hold (not_le.2 hnew)
  | declareVars names place s =>
    rw [Walk.declareVars, functions_declareAll] at hnew
    exact absurd hold (not_le.2 hnew)
  | @bind _ _ walk next place s es es' _ _ ih ih' =>
    -- The function was registered in the first walk or in the second one.
    rcases lt_or_ge i (walk place s).2.flow.program.functions.size with hfirst | hlast
    · obtain ⟨u, hu, hfound⟩ := ih hold hfirst
      exact ⟨u, List.mem_append_left es' hu, hfound⟩
    · obtain ⟨u, hu, hfound⟩ := ih' hlast hnew
      exact ⟨u, List.mem_append_right es hu, hfound⟩
  | @inScope _ _ kind place s es _ ih =>
    obtain ⟨u, hu, hfound⟩ := ih hold hnew
    exact ⟨u.inside kind, List.mem_map_of_mem hu, hfound⟩
  | @function name own isArrow f place s es _ ih =>
    rw [visitFunction_eq] at hnew
    -- The first number is that of the function itself, the later ones are of functions inside.
    rcases hold.eq_or_lt with rfl | hlater
    · exact ⟨_, List.mem_cons_self, name, own, isArrow, f, rfl, rfl⟩
    · have hentry : (entry name isArrow f place s).state.flow.program.functions.size =
          s.flow.program.functions.size + 1 := Array.size_push _
      obtain ⟨u, hu, hfound⟩ := ih (hentry ▸ hlater) hnew
      exact ⟨u.inside (functionKind isArrow), List.mem_cons_of_mem _ (List.mem_map_of_mem hu),
        hfound⟩

end Walk

end CallFlow
