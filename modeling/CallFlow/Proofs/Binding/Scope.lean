import CallFlow.Binding.Scope
import Mathlib.Order.Basic
import Mathlib.Order.Nat

/-!
# The tree of scopes

A tree is `Ordered` if the scope around a scope has the smaller number. Then the way out of a scope,
which `Way` gives step by step and with no bound on their number, ends; the scopes on it are those
that are enumerated as its ancestors, and they are the same in every later tree.
-/

namespace CallFlow.ScopeTree

variable {tree t : ScopeTree} {scope root : ScopeId}

/-! ## Creating a scope -/

theorem scope?_create (tree : ScopeTree) (kind : ScopeKind) (parent id : ScopeId) :
    (tree.create kind parent).2.scope? id =
      if id = ⟨tree.size⟩ then some ⟨kind, some parent⟩ else tree.scope? id := by
  obtain ⟨i⟩ := id
  simp only [ScopeId.mk.injEq]
  exact Array.getElem?_push ..

/-- A scope that is there keeps its number. -/
theorem scope?_create_of_some {id : ScopeId} {scope : Scope} (h : tree.scope? id = some scope)
    (kind : ScopeKind) (parent : ScopeId) :
    (tree.create kind parent).2.scope? id = some scope := by
  have hne : id ≠ ⟨tree.size⟩ := by
    rintro rfl
    exact absurd (Array.getElem?_eq_some_iff.1 h).1 (Nat.lt_irrefl _)
  rw [scope?_create, if_neg hne, h]

@[simp]
theorem size_create (tree : ScopeTree) (kind : ScopeKind) (parent : ScopeId) :
    (tree.create kind parent).2.size = tree.size + 1 := by
  simp [create, size]

theorem parent?_create (tree : ScopeTree) (kind : ScopeKind) (parent : ScopeId) :
    (tree.create kind parent).2.parent? ⟨tree.size⟩ = some parent := by
  rw [parent?, scope?_create, if_pos rfl]
  rfl

theorem index_lt_size {found : Scope} (h : tree.scope? scope = some found) :
    scope.index < tree.size :=
  (Array.getElem?_eq_some_iff.1 h).1

theorem exists_scope? (h : scope.index < tree.size) : ∃ found, tree.scope? scope = some found :=
  ⟨_, Array.getElem?_eq_getElem h⟩

theorem size_pos {scope : Scope} (h : tree.scope? global = some scope) : 0 < tree.size :=
  index_lt_size h

theorem parent?_of_scope? {found : Scope} (h : tree.scope? scope = some found) :
    tree.parent? scope = found.parent := by
  rw [parent?, h, Option.bind_some]

/-! ## The scopes around a scope -/

theorem exists_chain_eq_cons (tree : ScopeTree) (n : Nat) (scope : ScopeId) :
    ∃ around, tree.chain (n + 1) scope = scope :: around := by
  rw [chain]
  cases tree.parent? scope with
  | none => exact ⟨[], rfl⟩
  | some parent => exact ⟨_, rfl⟩

theorem exists_ancestors_eq_cons (tree : ScopeTree) (hsize : 0 < tree.size) (scope : ScopeId) :
    ∃ around, tree.ancestors scope = scope :: around := by
  obtain ⟨n, hn⟩ : ∃ n, tree.size = n + 1 := ⟨tree.size - 1, by omega⟩
  rw [ancestors, hn]
  exact tree.exists_chain_eq_cons n scope

theorem self_mem_ancestors (tree : ScopeTree) (hsize : 0 < tree.size) (scope : ScopeId) :
    scope ∈ tree.ancestors scope := by
  obtain ⟨around, haround⟩ := tree.exists_ancestors_eq_cons hsize scope
  rw [haround]
  exact List.mem_cons_self

/-- The scope around a scope has the smaller number. -/
def Ordered (tree : ScopeTree) : Prop :=
  ∀ scope parent, tree.parent? scope = some parent → parent.index < scope.index

theorem ordered_empty : empty.Ordered := by
  intro scope parent hparent
  obtain ⟨found, hfound, hsome⟩ := Option.bind_eq_some_iff.1 hparent
  obtain rfl := Array.mem_singleton.1 (Array.mem_of_getElem? hfound)
  cases hsome

/-- The way to the root is as long as there are numbers on it, however many are allowed for. -/
theorem Ordered.chain_eq {tree : ScopeTree} (h : tree.Ordered) {n m i : Nat} (hn : i < n)
    (hm : i < m) : tree.chain n ⟨i⟩ = tree.chain m ⟨i⟩ := by
  -- on the number of the scope, since its parent has a smaller one
  induction i using Nat.strong_induction_on generalizing n m with
  | _ i ih =>
    obtain ⟨n, rfl⟩ : ∃ k, n = k + 1 := ⟨n - 1, by omega⟩
    obtain ⟨m, rfl⟩ : ∃ k, m = k + 1 := ⟨m - 1, by omega⟩
    rw [chain, chain]
    cases hparent : tree.parent? ⟨i⟩ with
    | none => rfl
    | some parent =>
      have hlt : parent.index < i := h _ _ hparent
      exact congrArg _ (ih parent.index hlt (by omega) (by omega))

/-- A scope and those around it, up to one that has none around it. All of them are in the tree. -/
inductive Way (tree : ScopeTree) : ScopeId → List ScopeId → Prop
  | root {scope : ScopeId} {kind : ScopeKind} (h : tree.scope? scope = some ⟨kind, none⟩) :
      Way tree scope [scope]
  | out {scope parent : ScopeId} {kind : ScopeKind} {around : List ScopeId}
      (h : tree.scope? scope = some ⟨kind, some parent⟩) (rest : Way tree parent around) :
      Way tree scope (scope :: around)

namespace Way

variable {way : List ScopeId}

/-- There is one way out only. -/
theorem unique {other : List ScopeId} (h : tree.Way scope way) (h' : tree.Way scope other) :
    other = way := by
  -- at each scope there is only one way to go on
  induction h generalizing other with
  | root hroot =>
    cases h' with
    | root => rfl
    | out hout => simp [hroot] at hout
  | out hout _ ih =>
    cases h' with
    | root hroot => simp [hroot] at hout
    | out hout' rest =>
      simp only [hout, Option.some.injEq, Scope.mk.injEq] at hout'
      obtain ⟨-, rfl⟩ := hout'
      rw [ih rest]

/-- The way stays the same where all scopes are kept. -/
theorem of_kept (h : tree.Way scope way)
    (hkept : ∀ id found, tree.scope? id = some found → t.scope? id = some found) :
    t.Way scope way := by
  induction h with
  | root hroot => exact .root (hkept _ _ hroot)
  | out hout _ ih => exact .out (hkept _ _ hout) ih

/-- On the way out the numbers do not grow. -/
theorem index_le (h : tree.Way scope way) (hordered : tree.Ordered) :
    ∀ a ∈ way, a.index ≤ scope.index := by
  induction h with
  | root => exact List.forall_mem_singleton.2 le_rfl
  | out hout _ ih =>
    have hlt := hordered _ _ (parent?_of_scope? hout)
    exact List.forall_mem_cons.2 ⟨le_rfl, fun a ha => (ih a ha).trans hlt.le⟩

/-- The numbers go down on the way, so that no scope is met twice. -/
theorem pairwise (h : tree.Way scope way) (hordered : tree.Ordered) :
    way.Pairwise fun a b => b.index < a.index := by
  induction h with
  | root => exact List.pairwise_singleton _ _
  | out hout rest ih =>
    have hlt := hordered _ _ (parent?_of_scope? hout)
    exact List.pairwise_cons.2 ⟨fun a ha => (rest.index_le hordered a ha).trans_lt hlt, ih⟩

/-- The way ends at a scope that lies in no other. -/
theorem exists_last (h : tree.Way scope way) :
    ∃ last kind, way.getLast? = some last ∧ tree.scope? last = some ⟨kind, none⟩ := by
  induction h with
  | root hroot => exact ⟨_, _, rfl, hroot⟩
  | out _ _ ih =>
    obtain ⟨last, kind, hlast, hroot⟩ := ih
    exact ⟨last, kind, by rw [List.getLast?_cons, hlast, Option.getD_some], hroot⟩

end Way

namespace Ordered

/-- The ancestors are the scope itself and those of the scope around it. -/
theorem ancestors_eq (h : tree.Ordered) (hlt : scope.index < tree.size) :
    tree.ancestors scope = scope :: ((tree.parent? scope).map tree.ancestors).getD [] := by
  obtain ⟨n, hn⟩ : ∃ n, tree.size = n + 1 := ⟨tree.size - 1, by omega⟩
  rw [ancestors, hn, chain]
  cases hparent : tree.parent? scope with
  | none => rfl
  | some parent =>
    have hparentlt := h scope parent hparent
    exact congrArg (scope :: ·) (h.chain_eq (by omega) (by omega))

/-- The ancestors of a scope are the whole way out of it. -/
theorem way_ancestors (h : tree.Ordered) (hlt : scope.index < tree.size) :
    tree.Way scope (tree.ancestors scope) := by
  -- on the number of the scope, since its parent has a smaller one
  obtain ⟨i⟩ := scope
  induction i using Nat.strong_induction_on with
  | _ i ih =>
    obtain ⟨⟨kind, parent⟩, hfound⟩ := exists_scope? hlt
    have hparent := parent?_of_scope? hfound
    rw [h.ancestors_eq hlt, hparent]
    cases parent with
    | none => exact .root hfound
    | some parent =>
      have hlower : parent.index < i := h _ _ hparent
      exact .out hfound (ih parent.index hlower (hlower.trans hlt))

theorem index_le_of_mem_ancestors (h : tree.Ordered) (hlt : scope.index < tree.size) :
    ∀ a ∈ tree.ancestors scope, a.index ≤ scope.index :=
  (h.way_ancestors hlt).index_le h

/-- The scopes around a scope stay the same. -/
theorem ancestors_of_kept (h : tree.Ordered) (ht : t.Ordered)
    (hkept : ∀ id found, tree.scope? id = some found → t.scope? id = some found)
    (hsize : tree.size ≤ t.size) (hlt : scope.index < tree.size) :
    t.ancestors scope = tree.ancestors scope :=
  ((h.way_ancestors hlt).of_kept hkept).unique (ht.way_ancestors (hlt.trans_le hsize))

/-- A tree stays ordered if the scope around the new one is there. -/
theorem create (h : tree.Ordered) (kind : ScopeKind) {parent : ScopeId}
    (hlt : parent.index < tree.size) : (tree.create kind parent).2.Ordered := by
  intro other around haround
  obtain ⟨found, hfound, hsame⟩ := Option.bind_eq_some_iff.1 haround
  rw [scope?_create] at hfound
  split at hfound
  -- the new scope has the greatest number of all
  · next hnew =>
    obtain rfl := Option.some.inj hfound
    obtain rfl := Option.some.inj hsame
    rw [hnew]
    exact hlt
  · exact h other around (Option.bind_eq_some_iff.2 ⟨found, hfound, hsame⟩)

/-- The way out of a new scope goes on as that of the scope around it. -/
theorem ancestors_created (h : tree.Ordered) (hlt : scope.index < tree.size) (kind : ScopeKind) :
    (tree.create kind scope).2.ancestors ⟨tree.size⟩ = ⟨tree.size⟩ :: tree.ancestors scope := by
  have hnew : (⟨tree.size⟩ : ScopeId).index < (tree.create kind scope).2.size := by
    rw [size_create]
    exact Nat.lt_succ_self _
  rw [(h.create kind hlt).ancestors_eq hnew, parent?_create, Option.map_some, Option.getD_some,
    h.ancestors_of_kept (h.create kind hlt) (fun _ _ hid => scope?_create_of_some hid kind scope)
      (by simp) hlt]

end Ordered

/-! ## The scope that `var` belongs to -/

/-- Whether `var` belongs to this scope. -/
def hoists (tree : ScopeTree) (scope : ScopeId) : Bool :=
  (tree.kind? scope).any ScopeKind.hoistsVars

/-- A `var` in this scope belongs to `root`. -/
def HoistsTo (tree : ScopeTree) (scope root : ScopeId) : Prop :=
  (tree.ancestors scope).find? tree.hoists = some root

/-- Where the search finds a scope, it is the one that `var` is declared in. -/
theorem HoistsTo.varScope_eq (h : tree.HoistsTo scope root) : tree.varScope scope = root := by
  have hfound : (tree.ancestors scope).find? (fun s => (tree.kind? s).any ScopeKind.hoistsVars) =
      some root := h
  rw [varScope, hfound, Option.getD_some]

theorem hoists_of_scope? {found : Scope} (h : tree.scope? scope = some found) :
    tree.hoists scope = found.kind.hoistsVars := by
  rw [hoists, kind?, h]
  rfl

theorem chain_succ_of_scope? {found : Scope} (h : tree.scope? scope = some found) (n : Nat) :
    tree.chain (n + 1) scope = scope :: (found.parent.map (tree.chain n)).getD [] := by
  rw [chain, parent?_of_scope? h]
  cases found.parent <;> rfl

/-- Where all scopes are kept, `var` belongs where it did. -/
theorem find?_chain_of_kept
    (hkept : ∀ id found, tree.scope? id = some found → t.scope? id = some found) {n m : Nat}
    (hnm : n ≤ m) (h : (tree.chain n scope).find? tree.hoists = some root) :
    (t.chain m scope).find? t.hoists = some root := by
  induction n generalizing m scope with
  | zero => cases h
  | succ n ih =>
    obtain ⟨m, rfl⟩ : ∃ k, m = k + 1 := ⟨m - 1, by omega⟩
    cases hfound : tree.scope? scope with
    | none =>
      -- there is no such scope, so that nothing can be found from there
      have hparent : tree.parent? scope = none := by rw [parent?, hfound, Option.bind_none]
      have hnot : tree.hoists scope = false := by rw [hoists, kind?, hfound]; rfl
      rw [chain, hparent, List.find?_cons_of_neg (by simp [hnot])] at h
      cases h
    | some found =>
      have hkeep := hkept scope found hfound
      rw [chain_succ_of_scope? hfound] at h
      rw [chain_succ_of_scope? hkeep]
      cases hkind : found.kind.hoistsVars with
      | true =>
        rw [List.find?_cons_of_pos ((hoists_of_scope? hfound).trans hkind)] at h
        rwa [List.find?_cons_of_pos ((hoists_of_scope? hkeep).trans hkind)]
      | false =>
        rw [List.find?_cons_of_neg (by simp [hoists_of_scope? hfound, hkind])] at h
        rw [List.find?_cons_of_neg (by simp [hoists_of_scope? hkeep, hkind])]
        cases hparent : found.parent with
        | none =>
          rw [hparent] at h
          cases h
        | some parent =>
          rw [hparent] at h
          exact ih (by omega) h

/-- Around a scope that is opened are the scopes around the one that it is opened in. -/
theorem ancestors_create (tree : ScopeTree) (kind : ScopeKind) (parent : ScopeId) :
    (tree.create kind parent).2.ancestors ⟨tree.size⟩ =
      ⟨tree.size⟩ :: (tree.create kind parent).2.chain tree.size parent := by
  have hfound : (tree.create kind parent).2.scope? ⟨tree.size⟩ = some ⟨kind, some parent⟩ :=
    (scope?_create ..).trans (if_pos rfl)
  rw [ancestors, size_create, chain_succ_of_scope? hfound]
  rfl

theorem hoists_create (tree : ScopeTree) (kind : ScopeKind) (parent : ScopeId) :
    (tree.create kind parent).2.hoists ⟨tree.size⟩ = kind.hoistsVars :=
  hoists_of_scope? ((scope?_create ..).trans (if_pos rfl))

/-- A `var` belongs to the scope of a function or a module that has just been opened. -/
theorem hoistsTo_create_self (tree : ScopeTree) {kind : ScopeKind}
    (hkind : kind.hoistsVars = true) (parent : ScopeId) :
    (tree.create kind parent).2.HoistsTo ⟨tree.size⟩ ⟨tree.size⟩ := by
  rw [HoistsTo, ancestors_create]
  exact List.find?_cons_of_pos ((hoists_create ..).trans hkind)

/-- In a block that has just been opened it belongs where it did around. -/
theorem HoistsTo.create (h : tree.HoistsTo scope root) {kind : ScopeKind}
    (hkind : kind.hoistsVars = false) :
    (tree.create kind scope).2.HoistsTo ⟨tree.size⟩ root := by
  rw [HoistsTo, ancestors_create, List.find?_cons_of_neg (by simp [hoists_create, hkind])]
  exact find?_chain_of_kept (fun _ _ hid => scope?_create_of_some hid kind scope) le_rfl h

namespace Ordered

/-- The scope for `var` is there. -/
theorem varScope_lt (h : tree.Ordered) (hlt : scope.index < tree.size) :
    (tree.varScope scope).index < tree.size := by
  rw [varScope]
  cases hfound : (tree.ancestors scope).find? _ with
  | none => exact (Nat.zero_le _).trans_lt hlt
  | some found =>
    exact (h.index_le_of_mem_ancestors hlt found (List.mem_of_find?_eq_some hfound)).trans_lt hlt

/-- A `var` belongs where it did. -/
theorem varScope_of_kept (h : tree.Ordered) (ht : t.Ordered)
    (hkept : ∀ id found, tree.scope? id = some found → t.scope? id = some found)
    (hsize : tree.size ≤ t.size) (hlt : scope.index < tree.size) :
    t.varScope scope = tree.varScope scope := by
  -- the scopes on the way are kept, and so are their kinds
  have hhoists : ∀ a ∈ tree.ancestors scope, t.hoists a = tree.hoists a := fun a ha => by
    obtain ⟨found, hfound⟩ :=
      exists_scope? ((h.index_le_of_mem_ancestors hlt a ha).trans_lt hlt)
    rw [hoists_of_scope? hfound, hoists_of_scope? (hkept a found hfound)]
  have hfind :
      (tree.ancestors scope).find? t.hoists = (tree.ancestors scope).find? tree.hoists := by
    rw [← List.head?_filter, ← List.head?_filter, List.filter_congr hhoists]
  rw [varScope, h.ancestors_of_kept ht hkept hsize hlt]
  exact congrArg (·.getD global) hfind

/-- In the new scope of a block, `var` belongs where it did around. -/
theorem varScope_created (h : tree.Ordered) (hlt : scope.index < tree.size) (kind : ScopeKind) :
    (tree.create kind scope).2.varScope ⟨tree.size⟩ =
      if kind.hoistsVars then ⟨tree.size⟩ else tree.varScope scope := by
  have hcreated := h.create kind hlt
  cases hkind : kind.hoistsVars with
  -- a function or a module is found at once
  | true => exact (hoistsTo_create_self tree hkind scope).varScope_eq
  | false =>
    have haround : (tree.create kind scope).2.varScope scope = tree.varScope scope :=
      h.varScope_of_kept hcreated
        (fun _ _ hid => scope?_create_of_some hid kind scope) (by simp) hlt
    rw [if_neg Bool.false_ne_true, ← haround, varScope, varScope, h.ancestors_created hlt,
      h.ancestors_of_kept hcreated (fun _ _ hid => scope?_create_of_some hid kind scope) (by simp)
        hlt]
    -- the new block is passed by
    have hnew : ¬(tree.create kind scope).2.hoists ⟨tree.size⟩ = true := by
      rw [hoists_create, hkind]
      exact Bool.false_ne_true
    exact congrArg (·.getD global) (List.find?_cons_of_neg hnew)

end Ordered

end CallFlow.ScopeTree
