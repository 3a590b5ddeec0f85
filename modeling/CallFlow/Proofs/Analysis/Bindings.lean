import CallFlow.Proofs.Analysis.History
import CallFlow.Proofs.Binding.Structure
import CallFlow.Proofs.FileFlow.Visibility

/-!
# The binding structure of an analysis

A walk creates scopes and declares names from many places, but a scope only below the one that it is
in, which is there. So whatever has been done to a flow state, its scopes and names are what some
proper operations lead to, and all that is known of these holds of them.
-/

namespace CallFlow

namespace Bindings

/-- Some operations, each of them allowed, lead from the one to the other. -/
def Leads (b c : Bindings) : Prop :=
  ∃ ops, Proper b ops ∧ ops.foldl apply b = c

variable {b c d : Bindings}

theorem Leads.refl (b : Bindings) : b.Leads b :=
  ⟨[], trivial, rfl⟩

theorem Leads.trans (h : b.Leads c) (h' : c.Leads d) : b.Leads d := by
  obtain ⟨ops, hops, rfl⟩ := h
  obtain ⟨later, hlater, rfl⟩ := h'
  exact ⟨ops ++ later, proper_append.2 ⟨hops, hlater⟩, List.foldl_append⟩

theorem leads_create (kind : ScopeKind) {parent : ScopeId} (h : parent.index < b.tree.size) :
    b.Leads (b.apply (.create kind parent)) :=
  ⟨[.create kind parent], ⟨h, trivial⟩, rfl⟩

theorem leads_declare (b : Bindings) (name : String) (kind : SymbolKind) (scope : ScopeId) :
    b.Leads (b.apply (.declare name kind scope)) :=
  ⟨[.declare name kind scope], ⟨trivial, trivial⟩, rfl⟩

end Bindings

/-- The scopes and names of a state. -/
def FlowState.bindings (s : FlowState) : Bindings :=
  ⟨s.scopes, s.symbols⟩

namespace Walk

variable {α : Type} {walk : Walk α} {place : Place} {s : FileState} {es : List Event}

/-- A list of names is declared one by one. -/
theorem leads_declareAll (root : ScopeId) (kind : SymbolKind) (names : List String) (place : Place)
    (s : FileState) :
    s.flow.bindings.Leads ((names.forM (declareIn root kind)) place s).2.flow.bindings := by
  induction names generalizing s with
  | nil => exact .refl _
  | cons name names ih =>
    have hone : s.flow.bindings.Leads (s.declare name kind root).flow.bindings :=
      Bindings.leads_declare s.flow.bindings name kind root
    exact hone.trans (ih _)

/-- A run from a scope that is there does nothing else to scopes and names. -/
theorem Runs.leads (h : Runs walk place s es) (hs : s.flow.Standing place.scope) :
    s.flow.bindings.Leads (walk place s).2.flow.bindings := by
  induction h with
  | plain h place s =>
    obtain ⟨hscopes, hsymbols⟩ := h.scopes_symbols place s
    rw [FlowState.bindings, FlowState.bindings, hscopes, hsymbols]
    exact .refl _
  | resolve name place s =>
    rw [resolve_eq]
    exact .refl _
  | declare kind names place s => exact leads_declareAll place.scope kind names place s
  | declareVars names place s =>
    exact leads_declareAll (s.flow.scopes.varScope place.scope) .variable names place s
  -- the place still stands after the first walk
  | bind h _ ih ih' => exact (ih hs).trans (ih' (h.standing hs).1)
  -- the scope is created first, and the walk goes on in it
  | @inScope _ _ kind place s _ _ ih =>
    have hcreated : s.flow.bindings.Leads (s.createScope kind place.scope).flow.bindings :=
      Bindings.leads_create kind hs.known
    exact hcreated.trans (ih (hs.create kind))
  -- the scope of the function is the one that its head and its body are walked in
  | @function name own isArrow f place s _ _ ih =>
    rw [visitFunction_eq]
    have hentry : s.flow.bindings.Leads (entry name isArrow f place s).state.flow.bindings :=
      Bindings.leads_create (functionKind isArrow) hs.known
    exact hentry.trans (ih (standing_entry name isArrow f hs).1)

end Walk

/-- The scope of a module is opened below the global one. -/
theorem FlowState.Standing.opened {s : FlowState} (h : s.Standing ScopeTree.global) (path : Path)
    (lines : LineTable) : (s.opened path).flow.Standing (s.opening lines).scope := by
  let registered : FileState := ⟨{ s with program := (s.program.addFile path).2 }, default⟩
  have hregistered : registered.flow.Standing ScopeTree.global := ⟨h.ordered, h.known, h.bound⟩
  exact hregistered.create .moduleScope

namespace History

variable {h : History}

/-- A change of the graph is none of scopes and names. -/
theorem leads_withGraph (hs : h.flow.Standing ScopeTree.global) (graph : FlowGraph) :
    (h.withGraph graph).flow.Standing ScopeTree.global ∧
      h.flow.bindings.Leads (h.withGraph graph).flow.bindings :=
  ⟨⟨hs.ordered, hs.known, hs.bound⟩, .refl _⟩

/-- A step changes scopes and names by allowed operations only. -/
theorem leads_step (hs : h.flow.Standing ScopeTree.global) (step : Step) :
    (h.step step).flow.Standing ScopeTree.global ∧
      h.flow.bindings.Leads (h.step step).flow.bindings := by
  -- only a file changes the bindings
  cases step with
  | round => exact leads_withGraph hs _
  | build what =>
    cases what with
    | seed | link => exact leads_withGraph hs _
    | file path lines m =>
      have hopened := hs.opened path lines
      obtain ⟨es, hruns, -⟩ :=
        Walk.traced_visitModule m (h.flow.opening lines) (h.flow.opened path)
      have hafter := (hruns.standing hopened).1
      -- the module scope lies below the global one
      have hmodule : h.flow.bindings.Leads (h.flow.opened path).flow.bindings :=
        Bindings.leads_create .moduleScope hs.known
      have hflow : (h.step (.build (.file path lines m))).flow =
          (Walk.visitModule m (h.flow.opening lines) (h.flow.opened path)).2.flow :=
        congrArg Prod.snd (h.flow.addFile_eq path lines m)
      rw [hflow]
      exact ⟨⟨hafter.ordered, (Nat.zero_le _).trans_lt hafter.known, hafter.bound⟩,
        hmodule.trans (hruns.leads hopened)⟩

/-- By induction on the steps. -/
theorem standing_leads_after (steps : List Step) :
    (after steps).flow.Standing ScopeTree.global ∧
      ({} : Bindings).Leads (after steps).flow.bindings := by
  have hstart : ({} : History).flow.Standing ScopeTree.global :=
    ⟨ScopeTree.ordered_empty, Nat.one_pos, fun scope name x hx => by
      simp [SymbolTable.binding?, SymbolTable.empty] at hx⟩
  refine after_induction (motive := fun h => h.flow.Standing ScopeTree.global ∧
    ({} : Bindings).Leads h.flow.bindings) ⟨hstart, .refl _⟩ fun s _ h _ hboth => ?_
  obtain ⟨hs, hleads⟩ := hboth
  obtain ⟨hstep, hone⟩ := leads_step hs s
  exact ⟨hstep, hleads.trans hone⟩

/-- **Scopes and names come about by proper operations.** Whatever is done to a flow state, in any
order, its scopes were created below scopes that there were, so that its binding structure is one
that is reached from the empty one. -/
theorem bindings_after (steps : List Step) :
    ∃ ops, Bindings.Proper {} ops ∧ (after steps).flow.bindings = Bindings.after ops := by
  obtain ⟨-, ops, hproper, hops⟩ := standing_leads_after steps
  exact ⟨ops, hproper, hops.symm⟩

end History

end CallFlow
