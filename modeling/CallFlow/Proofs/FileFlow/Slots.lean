import CallFlow.Proofs.FileFlow.Lawful

/-!
# Slots of functions and calls

When a walk is done with a function, each of its parameters that is a plain name receives what comes
into its slot. When it is done with a call, the value of each argument flows into the slot of the
argument.
-/

namespace CallFlow

open Syntax

/-- What an expression evaluates to are sources. Where it denotes a place, values can be stored
there. -/
structure FileState.Evaluates (s : FileState) (e : Expr) (value : Evaluated) : Prop where
  result : s.Value value.result
  receiver : s.Value value.receiver
  place : e.isPlace = true → ∀ id ∈ value.result, s.Store id

namespace FileState.Evaluates

variable {s : FileState} {e : Expr}

theorem of_value {value : Option VertexId} (h : s.Value value) (he : e.isPlace = false) :
    s.Evaluates e { result := value } :=
  ⟨h, .none, fun hplace => by rw [he] at hplace; cases hplace⟩

theorem of_store {id : VertexId} {receiver : Option VertexId} (h : s.Store id)
    (hreceiver : s.Value receiver) : s.Evaluates e { result := some id, receiver } := by
  refine ⟨.some h.source, hreceiver, fun _ => ?_⟩
  rintro _ ⟨⟩
  exact h

end FileState.Evaluates

namespace FlowState

variable {s t : FlowState}

/-- A parameter that is a plain name is bound in the scope, and receives what comes from the
vertex. -/
def Binds (t : FlowState) (source : Vertex) (scope : ScopeId) (p : Param) : Prop :=
  ∀ name, p.plainName? = some name → ∃ x, t.symbols.binding? scope name = some x ∧
    (source, .var x) ∈ t.graph.edgeSet

theorem Binds.later {source : Vertex} {scope : ScopeId} {p : Param} (h : s.Binds source scope p)
    (ht : s.Later t) : t.Binds source scope p := by
  intro name hname
  obtain ⟨x, hx, hedge⟩ := h name hname
  exact ⟨x, ht.bindings _ _ _ hx, ht.edges hedge⟩

/-- What the expression has evaluated to at this place flows to the vertex, whose owner was there
before. -/
def Receives (t : FlowState) (target : Vertex) (place : Place) (e : Expr) : Prop :=
  ∃ s, s.flow.Names target ∧ (Walk.visit .value e place s).2.flow.Later t ∧
    ∀ id ∈ (Walk.visit .value e place s).1.result,
      ∃ v, t.graph.find? v = some id ∧ (v, target) ∈ t.graph.edgeSet

theorem Receives.later {target : Vertex} {place : Place} {e : Expr}
    (h : s.Receives target place e) (ht : s.Later t) : t.Receives target place e := by
  obtain ⟨before, hnames, hlater, hvalue⟩ := h
  refine ⟨before, hnames, hlater.trans ht, fun id hid => ?_⟩
  obtain ⟨v, hv, hedge⟩ := hvalue id hid
  exact ⟨v, ht.vertices v id hv, ht.edges hedge⟩

/-- The arguments, as they evaluate at this place, go into the slots of the call from `slot` on. -/
def Fills (t : FlowState) (place : Place) (c : CallId) (slot : ℕ) (args : List Expr) : Prop :=
  ∀ i e, args[i]? = some e →
    t.graph.Has (.arg c (slot + i)) ∧ t.Receives (.arg c (slot + i)) place e

theorem Fills.later {place : Place} {c : CallId} {slot : ℕ} {args : List Expr}
    (h : s.Fills place c slot args) (ht : s.Later t) : t.Fills place c slot args :=
  fun i e he => ⟨ht.has (h i e he).1, (h i e he).2.later ht⟩

end FlowState

namespace Walk

variable {place : Place} {file : WalkedFile} {s : FileState}

/-- The function is one of the program when the walk returns. -/
def Registered (t : FileState) (f : FunctionId) : Prop :=
  ∃ function, t.flow.program.function? f = some function

/-- The walk over a function that was started in `s` has registered it, and in the scope that it
opened each parameter that is a plain name receives what comes into its slot. -/
structure Entered (s : FileState) (func : Func) (t : FileState) (f : FunctionId) : Prop where
  id : f = ⟨s.flow.program.functions.size⟩
  function : ∃ function, t.flow.program.function? f = some function ∧
    function.paramCount = func.params.countP Param.isSlotted
  params : ∀ i p, func.params[i]? = some p →
    t.flow.Binds (.param f (func.slot i)) ⟨s.flow.scopes.size⟩ p

theorem Entered.registered {func : Func} {t : FileState} {f : FunctionId}
    (h : Entered s func t f) : Registered t f :=
  h.function.imp fun _ => And.left

/-- The value of an argument flows into its slot. -/
theorem LawfulAt.argument {passing : Passing} {value : Option VertexId} {c : CallId} {slot : ℕ}
    {b : VertexId} (hvalue : s.Value value) (hslot : s.flow.graph.find? (.arg c slot) = some b)
    (hpassing : ∀ id ∈ value, ∀ v, s.flow.graph.find? v = some id → passing v c slot) :
    LawfulAt place file s (Walk.flow value b) (fun t _ => ∀ id ∈ value,
      ∃ v, t.flow.graph.find? v = some id ∧ (v, .arg c slot) ∈ t.flow.graph.edgeSet) passing := by
  cases value with
  | none => exact .pure nofun
  | some a =>
    obtain ⟨v, hv, hsource⟩ := hvalue a rfl
    -- so it is not an edge from a vertex to itself, which would be left out
    have hne : v ≠ .arg c slot := by
      rintro rfl
      exact hsource
    refine fun _ _ => ⟨.argument hv hslot hsource (hpassing a rfl v hv), ?_⟩
    rintro _ ⟨⟩
    refine ⟨v, (FlowGraph.find?_addEdge ..).trans hv, ?_⟩
    show (v, .arg c slot) ∈ (s.flow.graph.addEdge a b).2.edgeSet
    rw [(FlowGraph.edgeSet_addEdge hv hslot hne).2]
    exact Set.mem_insert _ _

/-- **One call.** It is complete when it has been walked: its callee comes in before what is called
is walked, its arguments go into their slots, and its result comes in at the end. What is done for
the receiver and with the result differs between calls. -/
theorem lawfulAt_steps {role : Role} {e callee : Expr} {shape : CallShape}
    (hheld : file.module.Holds (.expr e)) (hshape : e.callShape? = some shape)
    (receive : CallId → Option VertexId → Walk Unit) (finish : CallId → Walk Unit)
    (hwalk : visit role e = do
      let call ← addCall shape.kind shape.argCount shape.span
      let slot ← vertex (.callee call)
      let value ← visit .callee callee
      flow value.result slot
      receive call value.receiver
      visitArgs call shape.first shape.args
      let result ← vertex (.res call)
      finish call
      return { result })
    (hcallee : ∀ t, Lawful file t (visit .callee callee) fun u value => u.Evaluates callee value)
    (hreceive : ∀ t c site receiver, t.flow.program.call? c = some site → t.Value receiver →
      Lawful file t (receive c receiver))
    (hargs : ∀ t c site, t.flow.program.call? c = some site →
      shape.first + shape.args.length ≤ site.argCount + 1 →
      LawfulAt place file t (visitArgs c shape.first shape.args)
        (fun u _ => u.flow.Fills place c shape.first shape.args) (.ofCall c shape))
    (hfinish : ∀ t c, t.flow.graph.Has (.res c) → Lawful file t (finish c)) :
    LawfulAt place file s (visit role e) fun t value => t.Evaluates e value ∧
      t.flow.Fills place ⟨s.flow.program.calls.size⟩ shape.first shape.args := by
  have hplace : e.isPlace = false := by
    cases e with
    | call _ _ _ _ | construct _ _ _ | tagged _ _ _ => rfl
    | _ => cases hshape
  -- one `bind` for each step: `hₖ` is how the state has grown on the way to `sₖ`
  refine .newCall hheld hshape hwalk fun s₁ _ c site hid hc hslots => ?_
  refine .bind (.of_lawful (.vertex (v := .callee c) ⟨site, hc⟩)) fun s₂ h₂ slot hslot => ?_
  refine .bind (.of_lawful (hcallee s₂)) fun s₃ h₃ value hvalue => ?_
  have hslot₃ := h₃.later.vertices _ _ hslot
  refine .bind (.of_lawful (.flow hvalue.result ⟨_, hslot₃, trivial⟩)) fun s₄ h₄ _ _ => ?_
  have hc₄ := ((h₂.trans h₃).trans h₄).later.calls _ _ hc
  refine .bind (.of_lawful (hreceive s₄ c site _ hc₄ (hvalue.receiver.later h₄.later)))
    fun s₅ h₅ _ _ => ?_
  refine .bind (hargs s₅ c site (h₅.later.calls _ _ hc₄) hslots) fun s₆ h₆ _ hfilled => ?_
  have hc₆ := (h₅.trans h₆).later.calls _ _ hc₄
  refine .bind (.of_lawful (.vertex (v := .res c) ⟨site, hc₆⟩)) fun s₇ h₇ result hresult => ?_
  refine .bind (.of_lawful (hfinish s₇ c ⟨_, hresult⟩)) fun s₈ h₈ _ _ => ?_
  have hfilled := hfilled.later (h₇.trans h₈).later
  refine .pure ⟨⟨?_, h₈.later.has ⟨_, hresult⟩, fun i hi => ?_⟩, ?_, hid ▸ hfilled⟩
  · exact (((((h₃.trans h₄).trans h₅).trans h₆).trans h₇).trans h₈).later.has ⟨_, hslot⟩
  · exact (hfilled i _ (List.getElem?_eq_getElem hi)).1
  · exact .of_value (.some ⟨_, h₈.later.vertices _ _ hresult, trivial⟩) hplace

/-- Calls, constructions and templates with a tag are walked in the same steps. -/
theorem lawfulAt_call {role : Role} {e callee : Expr} {shape : CallShape}
    (hheld : file.module.Holds (.expr e)) (hshape : e.callShape? = some shape)
    (hcalled : e.called? = some callee)
    (hcallee : ∀ t, Lawful file t (visit .callee callee) fun u value => u.Evaluates callee value)
    (hargs : ∀ t c site, t.flow.program.call? c = some site →
      shape.first + shape.args.length ≤ site.argCount + 1 →
      LawfulAt place file t (visitArgs c shape.first shape.args)
        (fun u _ => u.flow.Fills place c shape.first shape.args) (.ofCall c shape)) :
    LawfulAt place file s (visit role e) fun t value => t.Evaluates e value ∧
      t.flow.Fills place ⟨s.flow.program.calls.size⟩ shape.first shape.args := by
  -- The kinds of calls differ in what is done with the receiver and after the arguments.
  cases e with
  | call chained span callee' args =>
    obtain rfl := Option.some.inj hshape
    obtain rfl := Option.some.inj hcalled
    refine lawfulAt_steps hheld rfl passReceiver (recordRequire chained callee' args) ?_ hcallee
      (fun t c site receiver hc hreceiver => .passReceiver hc hreceiver) hargs
      fun t c hresult => .recordRequire _ _ _ hresult
    rw [visit]
    rfl
  | construct span callee' args =>
    obtain rfl := Option.some.inj hshape
    obtain rfl := Option.some.inj hcalled
    refine lawfulAt_steps hheld rfl (fun _ _ => pure ()) (fun _ => pure ()) ?_ hcallee
      (fun _ _ _ _ _ _ => .pure trivial) hargs fun _ _ _ => .pure trivial
    rw [visit]
    rfl
  | tagged span tag substitutions =>
    obtain rfl := Option.some.inj hshape
    obtain rfl := Option.some.inj hcalled
    refine lawfulAt_steps hheld rfl passReceiver (fun _ => pure ()) ?_ hcallee
      (fun t c site receiver hc hreceiver => .passReceiver hc hreceiver) hargs
      fun _ _ _ => .pure trivial
    rw [visit]
    rfl
  | _ => cases hshape

end Walk

end CallFlow
