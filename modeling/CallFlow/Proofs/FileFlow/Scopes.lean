import CallFlow.Proofs.FileFlow.Sound

/-!
# Scopes of one file among those of others

The global scope is shared; all other scopes of a file are numbered behind the ones that exist.
`Grafted` says so of a tree. Since the scopes of a file stand in a tree of their own below its
module scope, they see the same names wherever they are grafted, and `var` never reaches the
global scope.
-/

namespace CallFlow

namespace ScopeTree

/-- The scopes of one file: each is below its module scope, and a parent comes first. -/
structure Nested (tree : ScopeTree) : Prop where
  root : tree.scope? global = some ⟨.globalScope, none⟩
  moduleScope : tree.scope? ⟨1⟩ = some ⟨.moduleScope, some global⟩
  below : ∀ i scope, 2 ≤ i → tree.scope? ⟨i⟩ = some scope →
    ∃ j, scope.parent = some ⟨j⟩ ∧ 1 ≤ j ∧ j < i

/-- The scopes of a file at its start. -/
theorem nested_create_empty : (empty.create .moduleScope global).2.Nested where
  root := rfl
  moduleScope := rfl
  below i scope hi hscope := by
    rw [scope?_create, if_neg fun heq => by
      have : i = 1 := congrArg ScopeId.index heq
      omega] at hscope
    have hlt : i < 1 := (Array.getElem?_eq_some_iff.1 hscope).1
    omega

namespace Nested

variable {tree : ScopeTree}

theorem two_le_size (h : tree.Nested) : 2 ≤ tree.size :=
  (Array.getElem?_eq_some_iff.1 h.moduleScope).1

/-- A scope may be created below any but the global one. -/
theorem create (h : tree.Nested) (kind : ScopeKind) {parent : ScopeId} (hpos : 0 < parent.index)
    (hlt : parent.index < tree.size) : (tree.create kind parent).2.Nested := by
  have htwo := h.two_le_size
  have hold : ∀ i < 2, (⟨i⟩ : ScopeId) ≠ ⟨tree.size⟩ := fun i hi heq => by
    have := congrArg ScopeId.index heq
    dsimp only at this
    omega
  refine ⟨?_, ?_, fun i scope hi hscope => ?_⟩
  · exact (scope?_create ..).trans ((if_neg (hold 0 Nat.two_pos)).trans h.root)
  · exact (scope?_create ..).trans ((if_neg (hold 1 Nat.one_lt_two)).trans h.moduleScope)
  · rw [scope?_create] at hscope
    split at hscope
    · next hnew =>
      obtain rfl := Option.some.inj hscope
      obtain rfl := congrArg ScopeId.index hnew
      exact ⟨parent.index, rfl, hpos, hlt⟩
    · exact h.below i scope hi hscope

/-- A scope has a smaller number than those in it. -/
theorem parent?_lt (h : tree.Nested) {i : ℕ} {parent : ScopeId}
    (hparent : tree.parent? ⟨i⟩ = some parent) : parent.index < i := by
  obtain ⟨scope, hscope, hsame⟩ := Option.bind_eq_some_iff.1 hparent
  match i with
  | 0 =>
    obtain rfl := Option.some.inj (h.root.symm.trans hscope)
    cases hsame
  | 1 =>
    obtain rfl := Option.some.inj (h.moduleScope.symm.trans hscope)
    obtain rfl := Option.some.inj hsame
    exact Nat.zero_lt_one
  | i + 2 =>
    obtain ⟨j, hj, -, hlt⟩ := h.below (i + 2) scope (by omega) hscope
    obtain rfl := Option.some.inj (hj.symm.trans hsame)
    exact hlt

theorem ordered (h : tree.Nested) : tree.Ordered := fun _ _ hparent => h.parent?_lt hparent

/-- The scope that `var` belongs to is one of the file. -/
theorem exists_find?_chain (h : tree.Nested) {n i : ℕ} (hpos : 0 < i) (hlt : i < tree.size)
    (hn : i < n) : ∃ found : ScopeId,
      (tree.chain n ⟨i⟩).find? (fun s => (tree.kind? s).any ScopeKind.hoistsVars) = some found ∧
        0 < found.index ∧ found.index ≤ i := by
  induction i using Nat.strong_induction_on generalizing n with
  | _ i ih =>
    obtain ⟨n, rfl⟩ : ∃ k, n = k + 1 := ⟨n - 1, by omega⟩
    obtain ⟨scope, hscope⟩ : ∃ scope, tree.scope? ⟨i⟩ = some scope :=
      ⟨_, Array.getElem?_eq_getElem hlt⟩
    rw [chain]
    cases hkind : (tree.kind? ⟨i⟩).any ScopeKind.hoistsVars with
    | true =>
      refine ⟨⟨i⟩, ?_, hpos, le_refl i⟩
      cases tree.parent? ⟨i⟩ with
      | none => exact List.find?_cons_of_pos hkind
      | some parent => exact List.find?_cons_of_pos hkind
    | false =>
      -- The scope of the module takes what `var` declares, so the search goes no further.
      have htwo : 2 ≤ i := by
        by_contra hone
        obtain rfl : i = 1 := by omega
        simp [kind?, h.moduleScope, ScopeKind.hoistsVars] at hkind
      obtain ⟨j, hj, hjpos, hjlt⟩ := h.below i scope htwo hscope
      have hparent : tree.parent? ⟨i⟩ = some ⟨j⟩ := by rw [parent?, hscope, Option.bind_some, hj]
      obtain ⟨found, hfound, hfpos, hfle⟩ := ih j hjlt hjpos (hjlt.trans hlt) (n := n) (by omega)
      refine ⟨found, ?_, hfpos, hfle.trans hjlt.le⟩
      rw [hparent]
      dsimp only
      rwa [List.find?_cons_of_neg (by simp [hkind])]

theorem varScope_spec (h : tree.Nested) {scope : ScopeId} (hpos : 0 < scope.index)
    (hlt : scope.index < tree.size) :
    0 < (tree.varScope scope).index ∧ (tree.varScope scope).index < tree.size := by
  obtain ⟨found, hfound, hfpos, hfle⟩ := h.exists_find?_chain hpos hlt hlt
  rw [varScope, ancestors, hfound]
  exact ⟨hfpos, hfle.trans_lt hlt⟩

end Nested

/-! ## Grafting -/

/-- The number of a scope of a file behind `n` scopes; the global one is shared. -/
def moved (n : ℕ) : ScopeId → ScopeId
  | ⟨0⟩ => global
  | ⟨i + 1⟩ => ⟨n + i⟩

theorem moved_of_pos {n : ℕ} {scope : ScopeId} (h : 0 < scope.index) :
    moved n scope = ⟨n + (scope.index - 1)⟩ := by
  obtain ⟨i⟩ := scope
  obtain ⟨i, rfl⟩ := Nat.exists_eq_succ_of_ne_zero h.ne'
  rfl

/-- Different scopes stay different, since a moved one is never the global one. -/
theorem moved_injective {n : ℕ} (hn : 0 < n) : Function.Injective (moved n) := by
  intro ⟨i⟩ ⟨j⟩ h
  cases i with
  | zero =>
    cases j with
    | zero => rfl
    | succ j => exact absurd (congrArg ScopeId.index h) (show 0 ≠ n + j by omega)
  | succ i =>
    cases j with
    | zero => exact absurd (congrArg ScopeId.index h) (show n + i ≠ 0 by omega)
    | succ j =>
      have hij : n + i = n + j := congrArg ScopeId.index h
      rw [Nat.add_left_cancel hij]

theorem moved_pos {n : ℕ} (hn : 0 < n) {scope : ScopeId} (h : 0 < scope.index) :
    0 < (moved n scope).index := by
  rw [moved_of_pos h]
  exact Nat.add_pos_left hn _

/-- `amid` has the scopes of `base` and, behind them, those of `alone`. -/
structure Grafted (base alone amid : ScopeTree) : Prop where
  size_eq : amid.size + 1 = base.size + alone.size
  scope?_moved : ∀ s, amid.scope? (moved base.size s) =
    (alone.scope? s).map fun scope => ⟨scope.kind, scope.parent.map (moved base.size)⟩

namespace Grafted

variable {base alone amid : ScopeTree}

theorem kind?_moved (h : Grafted base alone amid) (s : ScopeId) :
    amid.kind? (moved base.size s) = alone.kind? s := by
  rw [kind?, kind?, h.scope?_moved, Option.map_map]
  rfl

theorem parent?_moved (h : Grafted base alone amid) (s : ScopeId) :
    amid.parent? (moved base.size s) = (alone.parent? s).map (moved base.size) := by
  rw [parent?, parent?, h.scope?_moved]
  cases alone.scope? s <;> rfl

/-- The scopes above a moved scope are moved. -/
theorem chain_moved (h : Grafted base alone amid) (n : ℕ) (s : ScopeId) :
    amid.chain n (moved base.size s) = (alone.chain n s).map (moved base.size) := by
  induction n generalizing s with
  | zero => rfl
  | succ n ih =>
    rw [chain, chain, h.parent?_moved]
    cases alone.parent? s with
    | none => rfl
    | some parent => exact congrArg _ (ih parent)

/-- The number of a scope that is about to be created. -/
theorem moved_size (h : Grafted base alone amid) (halone : 0 < alone.size) :
    moved base.size ⟨alone.size⟩ = ⟨amid.size⟩ := by
  have hsize := h.size_eq
  have hmoved : moved base.size ⟨alone.size⟩ = ⟨base.size + (alone.size - 1)⟩ :=
    moved_of_pos halone
  refine hmoved.trans (congrArg ScopeId.mk ?_)
  show base.size + (alone.size - 1) = amid.size
  omega

section

variable (hbase : 0 < base.size)
include hbase

/-- A scope that is created in both trees is moved, too. -/
theorem create (h : Grafted base alone amid) (halone : 0 < alone.size) (kind : ScopeKind)
    (parent : ScopeId) :
    Grafted base (alone.create kind parent).2 (amid.create kind (moved base.size parent)).2 := by
  have hsize := h.size_eq
  refine ⟨by simp only [size_create]; omega, fun s => ?_⟩
  rw [scope?_create, scope?_create, h.scope?_moved, ← h.moved_size halone]
  simp only [(moved_injective hbase).eq_iff]
  split <;> rfl

variable (hnested : alone.Nested)
include hnested

theorem ancestors_moved (h : Grafted base alone amid) {s : ScopeId} (hs : s.index < alone.size) :
    amid.ancestors (moved base.size s) = (alone.ancestors s).map (moved base.size) := by
  have hsize := h.size_eq
  rw [ancestors, h.chain_moved]
  exact congrArg _ (hnested.ordered.chain_eq (by omega) hs)

/-- What `var` declares in a moved scope gets into the moved one. -/
theorem varScope_moved (h : Grafted base alone amid) {s : ScopeId} (hs : s.index < alone.size) :
    amid.varScope (moved base.size s) = moved base.size (alone.varScope s) := by
  have hkind : (fun s => (amid.kind? s).any ScopeKind.hoistsVars) ∘ moved base.size =
      fun s => (alone.kind? s).any ScopeKind.hoistsVars :=
    funext fun s => by rw [Function.comp_apply, h.kind?_moved]
  rw [varScope, varScope, h.ancestors_moved hbase hnested hs, List.find?_map, hkind]
  cases (alone.ancestors s).find? _ <;> rfl

end

end Grafted

end ScopeTree

/-! ## The names -/

namespace SymbolTable

/-- `amid` has the symbols of a table of `symbols` ones and, behind them, those of `alone`, which
are bound where `alone` binds them, `scopes` scopes further on. -/
structure Grafted (scopes symbols : ℕ) (alone amid : SymbolTable) : Prop where
  size_eq : amid.size = symbols + alone.size
  binding?_moved : ∀ s name, amid.binding? (ScopeTree.moved scopes s) name =
    (alone.binding? s name).map fun id => ⟨symbols + id.index⟩

namespace Grafted

variable {scopes symbols : ℕ} {alone amid : SymbolTable}

/-- A name that is declared in both tables gets the moved symbol. -/
theorem declare (h : Grafted scopes symbols alone amid) (hscopes : 0 < scopes) (name : String)
    (kind : SymbolKind) (scope : ScopeId) :
    Grafted scopes symbols (alone.declare name kind scope).2
      (amid.declare name kind (ScopeTree.moved scopes scope)).2 := by
  constructor
  · rw [size_declare, size_declare, h.binding?_moved, Option.isSome_map, h.size_eq, Nat.add_assoc]
  · intro s x
    simp only [binding?_declare, h.binding?_moved, (ScopeTree.moved_injective hscopes).eq_iff]
    split
    · cases alone.binding? scope name with
      | none => exact congrArg (fun i => some (SymbolId.mk i)) h.size_eq
      | some id => rfl
    · rfl

/-- A name denotes the same symbol. -/
theorem lookup_moved {base aloneTree amidTree : ScopeTree}
    (h : Grafted base.size symbols alone amid) (htree : ScopeTree.Grafted base aloneTree amidTree)
    (hbase : 0 < base.size) (hnested : aloneTree.Nested) (name : String) {s : ScopeId}
    (hs : s.index < aloneTree.size) :
    amid.lookup amidTree name (ScopeTree.moved base.size s) =
      (alone.lookup aloneTree name s).map fun id => ⟨symbols + id.index⟩ := by
  rw [lookup, lookup, htree.ancestors_moved hbase hnested hs, List.findSome?_map,
    List.map_findSome?]
  exact congrArg (List.findSome? · _) (funext fun s => h.binding?_moved s name)

end Grafted

end SymbolTable

end CallFlow
