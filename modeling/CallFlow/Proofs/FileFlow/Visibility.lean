import CallFlow.Proofs.FileFlow.Hoisting
import CallFlow.Proofs.FileFlow.Scopes

/-!
# What is visible along a run

A state in good standing has scopes below scopes with smaller numbers, and binds names in scopes
that it has. A run keeps this. At each of its events the scopes around are those opened on the way,
which are new, and behind them those around its start. So what a scope binds that was there before
changes only if the run declares names in this very scope.
-/

namespace CallFlow

open Syntax

/-! ## Standing -/

namespace FlowState

/-- The scope is one of a tree in order, and names are bound in scopes of it. -/
structure Standing (s : FlowState) (scope : ScopeId) : Prop where
  ordered : s.scopes.Ordered
  known : scope.index < s.scopes.size
  bound : ∀ other name x, s.symbols.binding? other name = some x → other.index < s.scopes.size

namespace Standing

variable {s : FileState} {scope : ScopeId}

/-- Names may be declared in any scope that is there. -/
theorem declareAll (h : s.flow.Standing scope) {root : ScopeId}
    (hroot : root.index < s.flow.scopes.size) (kind : SymbolKind) (names : List String)
    (place : Place) : ((names.forM (Walk.declareIn root kind)) place s).2.flow.Standing scope := by
  induction names generalizing s with
  | nil => exact h
  | cons name names ih =>
    have hone : (s.declare name kind root).flow.Standing scope :=
      { h with
        bound := fun other x id hid => by
          have hdeclared :=
            (s.flow.symbols.binding?_declare name kind root other x).symm.trans hid
          split at hdeclared
          · next heq => exact heq.1 ▸ hroot
          · exact h.bound other x id hdeclared }
    exact ih hone hroot

/-- A scope may be created below one that is there. -/
theorem create (h : s.flow.Standing scope) (kind : ScopeKind) :
    (s.createScope kind scope).flow.Standing ⟨s.flow.scopes.size⟩ := by
  have hsize : (s.createScope kind scope).flow.scopes.size = s.flow.scopes.size + 1 :=
    ScopeTree.size_create ..
  refine ⟨h.ordered.create kind h.known, ?_, fun other x id hid => ?_⟩
  · rw [hsize]
    exact Nat.lt_succ_self _
  · rw [hsize]
    exact (h.bound other x id hid).trans (Nat.lt_succ_self _)

/-- A scope that was there before is in standing where the last one is. -/
theorem around {t : FlowState} {other : ScopeId} (ht : t.Standing other) {s : FlowState}
    (h : s.Standing scope) (hlater : s.Later t) : t.Standing scope :=
  { ht with known := h.known.trans_le hlater.size_scopes_le }

end Standing

/-- Around a scope of the later state are scopes that have been opened since, and behind them those
around the scope of the earlier state. -/
def Beyond (s t : FlowState) (scope other : ScopeId) : Prop :=
  ∃ opened, t.scopes.ancestors other = opened ++ s.scopes.ancestors scope ∧
    ∀ a ∈ opened, s.scopes.size ≤ a.index

/-- A scope is beyond itself. -/
theorem Beyond.refl (s : FlowState) (scope : ScopeId) : s.Beyond s scope scope :=
  ⟨[], rfl, nofun⟩

/-- What is beyond a scope beyond another is beyond that. -/
theorem Beyond.trans {s t u : FlowState} {a b c : ScopeId} (h : s.Beyond t a b)
    (h' : t.Beyond u b c) (hsize : s.scopes.size ≤ t.scopes.size) : s.Beyond u a c := by
  obtain ⟨outer, houter, hold⟩ := h
  obtain ⟨inner, hinner, hnew⟩ := h'
  refine ⟨inner ++ outer, by rw [hinner, houter, List.append_assoc], ?_⟩
  exact List.forall_mem_append.2 ⟨fun a ha => hsize.trans (hnew a ha), hold⟩

/-- A new scope is beyond the one it is created in. -/
theorem Standing.beyond_create {s : FileState} {scope : ScopeId} (h : s.flow.Standing scope)
    (kind : ScopeKind) :
    s.flow.Beyond (s.createScope kind scope).flow scope ⟨s.flow.scopes.size⟩ :=
  ⟨[⟨s.flow.scopes.size⟩], h.ordered.ancestors_created h.known kind,
    List.forall_mem_singleton.2 le_rfl⟩

/-- A scope is beyond itself later on. -/
theorem Standing.beyond_later {s t : FlowState} {scope : ScopeId} (h : s.Standing scope)
    (ht : t.Standing scope) (hlater : s.Later t) : s.Beyond t scope scope :=
  ⟨[], h.ordered.ancestors_of_kept ht.ordered hlater.scopes hlater.size_scopes_le h.known, nofun⟩

end FlowState

namespace Walk

open FlowState

variable {α : Type} {walk : Walk α} {place : Place} {s : FileState} {es : List Event}

/-- The scope of a function is opened like any other. -/
theorem standing_entry (name : Option String) (isArrow : Bool) (f : Func)
    (hs : s.flow.Standing place.scope) :
    let e := entry name isArrow f place s
    e.state.flow.Standing e.place.scope ∧
      s.flow.Beyond e.state.flow place.scope e.place.scope := by
  let registered := (vertex (.func (entry name isArrow f place s).id) place
    (addFunction name (f.params.countP Param.isSlotted) isArrow f.span place s).2).2
  have hregistered : registered.flow.Standing place.scope := ⟨hs.ordered, hs.known, hs.bound⟩
  exact ⟨hregistered.create _, hregistered.beyond_create (functionKind isArrow)⟩

/-- A run keeps its scope in standing, and leads to scopes inside of it. -/
theorem Runs.standing (h : Runs walk place s es) (hs : s.flow.Standing place.scope) :
    (walk place s).2.flow.Standing place.scope ∧ ∀ e ∈ es, e.state.flow.Standing e.place.scope ∧
      s.flow.Beyond e.state.flow place.scope e.place.scope := by
  induction h with
  -- What does nothing with names leaves scopes and symbols as they are.
  | plain h place s =>
    obtain ⟨hscopes, hsymbols⟩ := h.scopes_symbols place s
    exact ⟨⟨hscopes ▸ hs.ordered, hscopes ▸ hs.known, hscopes ▸ hsymbols ▸ hs.bound⟩,
      List.forall_mem_nil _⟩
  | resolve name place s =>
    rw [resolve_eq]
    exact ⟨⟨hs.ordered, hs.known, hs.bound⟩, List.forall_mem_singleton.2 ⟨hs, .refl _ _⟩⟩
  | declare kind names place s =>
    exact ⟨hs.declareAll hs.known kind names place, List.forall_mem_singleton.2 ⟨hs, .refl _ _⟩⟩
  | declareVars names place s =>
    exact ⟨hs.declareAll (hs.ordered.varScope_lt hs.known) .variable names place,
      List.forall_mem_singleton.2 ⟨hs, .refl _ _⟩⟩
  | bind h _ ih ih' =>
    obtain ⟨hmid, hbefore⟩ := ih hs
    obtain ⟨hafter, hlater⟩ := ih' hmid
    refine ⟨hafter, List.forall_mem_append.2 ⟨hbefore, fun e he => ?_⟩⟩
    obtain ⟨he, hbeyond⟩ := hlater e he
    exact ⟨he, (hs.beyond_later hmid h.continues.later).trans hbeyond
      h.continues.later.size_scopes_le⟩
  | @inScope _ _ kind place s _ h ih =>
    have hcreated := Later.createScope s kind place.scope
    obtain ⟨hafter, hinside⟩ := ih (hs.create kind)
    refine ⟨hafter.around hs (hcreated.trans h.continues.later),
      List.forall_mem_map.2 fun e he => ?_⟩
    obtain ⟨he, hbeyond⟩ := hinside e he
    exact ⟨he, (hs.beyond_create kind).trans hbeyond hcreated.size_scopes_le⟩
  | @function name own isArrow f place s _ h ih =>
    have hcontinues := continues_entry name isArrow f place s
    obtain ⟨hentry, hopened⟩ := standing_entry name isArrow f hs
    obtain ⟨hafter, hinside⟩ := ih hentry
    refine ⟨?_, List.forall_mem_cons.2 ⟨⟨hs, .refl _ _⟩, List.forall_mem_map.2 fun e he => ?_⟩⟩
    · rw [visitFunction_eq]
      exact hafter.around hs (hcontinues.trans h.continues).later
    · obtain ⟨he, hbeyond⟩ := hinside e he
      exact ⟨he, hopened.trans hbeyond hcontinues.later.size_scopes_le⟩

/-- The names that `var` declares, in the list, for the scope that the walk starts in or one
around it. -/
abbrev hoistedVars (es : List Event) : List String :=
  Event.varsThrough (fun kind => !kind.hoistsVars) es

theorem binding?_declareAll {root a : ScopeId} {names : List String} {name : String}
    (hname : a = root → name ∉ names) (kind : SymbolKind) (place : Place) (s : FileState) :
    ((names.forM (declareIn root kind)) place s).2.flow.symbols.binding? a name =
      s.flow.symbols.binding? a name := by
  induction names generalizing s with
  | nil => rfl
  | cons x names ih =>
    have hrest := ih (fun heq hmem => hname heq (List.mem_cons_of_mem x hmem))
      (s.declare x kind root)
    refine hrest.trans ((s.flow.symbols.binding?_declare x kind root a name).trans (if_neg ?_))
    rintro ⟨heq, rfl⟩
    exact hname heq List.mem_cons_self

/-- A run leaves what a scope binds as it is, unless it declares names in the scope by itself or
declares this name by a `var` that belongs to the scope. -/
theorem Runs.binding?_eq (h : Runs walk place s es) (hs : s.flow.Standing place.scope)
    {a : ScopeId} (ha : a.index < s.flow.scopes.size) {name : String}
    (hown : place.scope = a → ∀ e ∈ es, e.within = [] → e.act.isDeclare = false)
    (hvar : s.flow.scopes.varScope place.scope = a → name ∉ hoistedVars es) :
    (walk place s).2.flow.symbols.binding? a name = s.flow.symbols.binding? a name ∧
      ∀ e ∈ es, e.state.flow.symbols.binding? a name = s.flow.symbols.binding? a name := by
  induction h with
  | plain h place s =>
    obtain ⟨-, hsymbols⟩ := h.scopes_symbols place s
    exact ⟨by rw [hsymbols], List.forall_mem_nil _⟩
  | resolve x place s =>
    rw [resolve_eq]
    exact ⟨rfl, List.forall_mem_singleton.2 rfl⟩
  | declare kind names place s =>
    have hne : a ≠ place.scope := fun heq =>
      Bool.noConfusion (List.forall_mem_singleton.1 (hown heq.symm) rfl)
    exact ⟨binding?_declareAll (absurd · hne) kind place s, List.forall_mem_singleton.2 rfl⟩
  | declareVars names place s =>
    have hname : a = s.flow.scopes.varScope place.scope → name ∉ names := fun heq hmem =>
      hvar heq.symm (List.mem_append_left [] hmem)
    exact ⟨binding?_declareAll hname .variable place s, List.forall_mem_singleton.2 rfl⟩
  | @bind _ _ _ _ place s es es' h _ ih ih' =>
    have hlater := h.continues.later
    have hmid := (h.standing hs).1
    have hsame := hs.ordered.varScope_of_kept hmid.ordered hlater.scopes hlater.size_scopes_le
      hs.known
    have hvars : s.flow.scopes.varScope place.scope = a →
        name ∉ hoistedVars es ∧ name ∉ hoistedVars es' := fun heq => by
      have hnone := hvar heq
      rw [hoistedVars, Event.varsThrough_append, List.mem_append, not_or] at hnone
      exact hnone
    obtain ⟨hafter, hbefore⟩ := ih hs ha
      (fun heq e he => hown heq e (List.mem_append_left _ he)) fun heq => (hvars heq).1
    obtain ⟨hafter', hlast⟩ := ih' hmid (ha.trans_le hlater.size_scopes_le)
      (fun heq e he => hown heq e (List.mem_append_right _ he)) fun heq => (hvars (hsame ▸ heq)).2
    exact ⟨hafter'.trans hafter,
      List.forall_mem_append.2 ⟨hbefore, fun e he => (hlast e he).trans hafter⟩⟩
  | @inScope _ _ kind place s es h ih =>
    have hnew : (⟨s.flow.scopes.size⟩ : ScopeId) ≠ a := fun heq =>
      absurd ha (by rw [← heq]; exact Nat.lt_irrefl _)
    obtain ⟨hafter, hinside⟩ := ih (hs.create kind)
      (ha.trans_le (Later.createScope s kind place.scope).size_scopes_le)
      (fun heq => absurd heq hnew) fun heq => by
        have hcreated := hs.ordered.varScope_created hs.known kind
        cases hkind : kind.hoistsVars with
        | true =>
          rw [hkind, if_pos rfl] at hcreated
          exact absurd (hcreated.symm.trans heq) hnew
        | false =>
          rw [hkind, if_neg Bool.false_ne_true] at hcreated
          have hnone := hvar (hcreated.symm.trans heq)
          rw [hoistedVars, Event.varsThrough_inside, hkind] at hnone
          exact hnone
    exact ⟨hafter, List.forall_mem_map.2 hinside⟩
  | @function name own isArrow f place s es h ih =>
    have hcontinues := continues_entry name isArrow f place s
    have hself := (scope?_entry name isArrow f place s).2.2.varScope_eq
    have hnew : (entry name isArrow f place s).place.scope ≠ a := fun heq =>
      absurd ha (by rw [← heq]; exact Nat.lt_irrefl _)
    obtain ⟨hafter, hinside⟩ := ih (standing_entry name isArrow f hs).1
      (ha.trans_le hcontinues.later.size_scopes_le) (fun heq => absurd heq hnew)
      fun heq => absurd (hself.symm.trans heq) hnew
    rw [visitFunction_eq]
    exact ⟨hafter, List.forall_mem_cons.2 ⟨rfl, List.forall_mem_map.2 hinside⟩⟩

end Walk

end CallFlow
