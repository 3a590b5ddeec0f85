import CallFlow.Proofs.FileFlow.Growth

/-!
# Scopes and names of a later state

The scopes around a scope stay around it while others are created, and names stay bound to their own
symbols.
-/

namespace CallFlow

namespace FlowState.Later

variable {s t : FlowState} {root scope : ScopeId}

/-- There are no fewer scopes. -/
theorem size_scopes_le (h : s.Later t) : s.scopes.size ≤ t.scopes.size := by
  by_contra hle
  have hlt : t.scopes.size < s.scopes.scopes.size := not_le.1 hle
  have hkept := h.scopes ⟨t.scopes.size⟩ _ (Array.getElem?_eq_getElem hlt)
  have hlast : t.scopes.scope? ⟨t.scopes.size⟩ = none := Array.getElem?_size
  rw [hlast] at hkept
  cases hkept

theorem parent?_eq (h : s.Later t) {parent : ScopeId}
    (hparent : s.scopes.parent? scope = some parent) :
    t.scopes.parent? scope = some parent := by
  obtain ⟨found, hfound, hsame⟩ := Option.bind_eq_some_iff.1 hparent
  exact Option.bind_eq_some_iff.2 ⟨found, h.scopes scope found hfound, hsame⟩

/-- The way to the root leads through the same scopes. -/
theorem mem_chain (h : s.Later t) {n m : ℕ} (hnm : n ≤ m)
    (hroot : root ∈ s.scopes.chain n scope) : root ∈ t.scopes.chain m scope := by
  induction n generalizing m scope with
  | zero => exact absurd hroot List.not_mem_nil
  | succ n ih =>
    obtain ⟨m, rfl⟩ : ∃ k, m = k + 1 := ⟨m - 1, by omega⟩
    rw [ScopeTree.chain] at hroot
    cases hparent : s.scopes.parent? scope with
    | none =>
      rw [hparent, List.mem_singleton] at hroot
      obtain ⟨around, haround⟩ := t.scopes.exists_chain_eq_cons m scope
      rw [hroot, haround]
      exact List.mem_cons_self
    | some parent =>
      rw [hparent] at hroot
      rw [ScopeTree.chain, h.parent?_eq hparent]
      rcases List.mem_cons.1 hroot with rfl | habove
      · exact List.mem_cons_self
      · exact List.mem_cons_of_mem _ (ih (by omega) habove)

/-- Scopes stay below those that they are below. -/
theorem mem_ancestors (h : s.Later t) (hroot : root ∈ s.scopes.ancestors scope) :
    root ∈ t.scopes.ancestors scope :=
  h.mem_chain h.size_scopes_le hroot

/-- Around a scope that is opened are the scopes around the one that it is opened in. -/
theorem mem_ancestors_createScope {s : FileState} (kind : ScopeKind)
    (hroot : root ∈ s.flow.scopes.ancestors scope) :
    root ∈ (s.createScope kind scope).flow.scopes.ancestors ⟨s.flow.scopes.size⟩ := by
  have hsize : (s.createScope kind scope).flow.scopes.size = s.flow.scopes.size + 1 :=
    ScopeTree.size_create ..
  have hparent : (s.createScope kind scope).flow.scopes.parent? ⟨s.flow.scopes.size⟩ =
      some scope := ScopeTree.parent?_create ..
  rw [ScopeTree.ancestors, hsize, ScopeTree.chain, hparent]
  exact List.mem_cons_of_mem _ ((createScope s kind scope).mem_chain le_rfl hroot)

end FlowState.Later

/-- Names stay bound to their own symbols. -/
theorem FileState.Grows.faithful {file : WalkedFile} {passing : Passing} {s t : FileState}
    (h : Grows file passing s t) (hs : s.flow.symbols.Faithful) : t.flow.symbols.Faithful := by
  induction h with
  | trans _ _ ih ih' => exact ih' (ih hs)
  | declare name kind scope => exact hs.declare name kind scope
  | function _ _ _ _ _ ih => exact ih hs
  | call _ _ _ _ _ _ ih => exact ih hs
  | _ => exact hs

end CallFlow
