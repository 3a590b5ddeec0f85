import CallFlow.CallGraph.Basic
import CallFlow.FileFlow.Basic
import Mathlib.Algebra.Group.Embedding
import Mathlib.Algebra.Group.Nat.Defs
import Mathlib.Algebra.Order.Group.Nat
import Mathlib.Data.Finset.Card

/-!
# Renaming

Files, functions, calls and symbols are numbered as they are met, so that what a file contributes
has other numbers after other files. A `Renaming` has a new number for each old one. Built-in
functions, properties and the unknown value have no numbers and keep their vertices.
-/

namespace CallFlow

/-- What is numbered. -/
inductive Numbered
  | file | function | call | symbol
deriving DecidableEq

/-- How many numbers of each sort are in use. -/
abbrev Extent := Numbered → ℕ

/-- Different numbers for different numbers, sort by sort. -/
structure Renaming where
  number : Numbered → ℕ ↪ ℕ

/-- The numbers in a vertex are in use. -/
def Vertex.Within (n : Extent) : Vertex → Prop
  | .func f | .param f _ | .ret f => f.index < n .function
  | .callee c | .arg c _ | .res c => c.index < n .call
  | .var s => s.index < n .symbol
  | .expr key => key.file.index < n .file
  | .native _ | .unknown | .prop _ => True

/-- The numbers in a function are in use. -/
def Function.Within (n : Extent) (f : Function) : Prop :=
  f.file.index < n .file ∧ ∀ g ∈ f.enclosing, g.index < n .function

/-- The numbers in a call are in use. -/
def CallSite.Within (n : Extent) (site : CallSite) : Prop :=
  site.file.index < n .file ∧ ∀ g ∈ site.enclosing, g.index < n .function

/-- What lies within a smaller extent lies within a larger one. -/
theorem Vertex.Within.mono {n m : Extent} (h : n ≤ m) {v : Vertex} (hv : v.Within n) :
    v.Within m := by
  cases v with
  | func f | param f _ | ret f => exact lt_of_lt_of_le hv (h .function)
  | callee c | arg c _ | res c => exact lt_of_lt_of_le hv (h .call)
  | var s => exact lt_of_lt_of_le hv (h .symbol)
  | expr key => exact lt_of_lt_of_le hv (h .file)
  | native _ | unknown | prop _ => trivial

theorem Function.Within.mono {n m : Extent} (h : n ≤ m) {f : Function} (hf : f.Within n) :
    f.Within m :=
  ⟨lt_of_lt_of_le hf.1 (h .file), fun g hg => lt_of_lt_of_le (hf.2 g hg) (h .function)⟩

theorem CallSite.Within.mono {n m : Extent} (h : n ≤ m) {site : CallSite} (hs : site.Within n) :
    site.Within m :=
  ⟨lt_of_lt_of_le hs.1 (h .file), fun g hg => lt_of_lt_of_le (hs.2 g hg) (h .function)⟩

namespace Renaming

variable (ρ σ : Renaming)

/-! ## What is renamed -/

/-- A renamed file. -/
def fileId (i : FileId) : FileId := ⟨ρ.number .file i.index⟩

/-- A renamed function. -/
def functionId (f : FunctionId) : FunctionId := ⟨ρ.number .function f.index⟩

/-- A renamed call. -/
def callId (c : CallId) : CallId := ⟨ρ.number .call c.index⟩

/-- A renamed symbol. -/
def symbolId (s : SymbolId) : SymbolId := ⟨ρ.number .symbol s.index⟩

/-- A vertex with all its numbers renamed. Names, slots and ranges stay. -/
def vertex : Vertex → Vertex
  | .func f => .func (ρ.functionId f)
  | .callee c => .callee (ρ.callId c)
  | .native name => .native name
  | .param f slot => .param (ρ.functionId f) slot
  | .arg c slot => .arg (ρ.callId c) slot
  | .ret f => .ret (ρ.functionId f)
  | .res c => .res (ρ.callId c)
  | .unknown => .unknown
  | .var s => .var (ρ.symbolId s)
  | .prop name => .prop name
  | .expr key => .expr ⟨ρ.fileId key.file, key.span⟩

/-- Both ends of an edge, renamed. -/
def edge (e : Vertex × Vertex) : Vertex × Vertex := (ρ.vertex e.1, ρ.vertex e.2)

/-- A function with its file and the function around it renamed. -/
def function (f : Function) : Function :=
  { f with file := ρ.fileId f.file, enclosing := f.enclosing.map ρ.functionId }

/-- A call with its file and the function around it renamed. -/
def site (c : CallSite) : CallSite :=
  { c with file := ρ.fileId c.file, enclosing := c.enclosing.map ρ.functionId }

/-- Only functions that are written are numbered. -/
def callee : Callee → Callee
  | .function f => .function (ρ.functionId f)
  | .native name => .native name

@[simp]
theorem vertex_callee (callee : Callee) : (ρ.callee callee).vertex = ρ.vertex callee.vertex := by
  cases callee <;> rfl

/-! ## Nothing is identified -/

theorem fileId_injective : Function.Injective ρ.fileId := fun ⟨_⟩ ⟨_⟩ h =>
  congrArg FileId.mk ((ρ.number .file).injective (congrArg FileId.index h))

theorem functionId_injective : Function.Injective ρ.functionId := fun ⟨_⟩ ⟨_⟩ h =>
  congrArg FunctionId.mk ((ρ.number .function).injective (congrArg FunctionId.index h))

theorem callId_injective : Function.Injective ρ.callId := fun ⟨_⟩ ⟨_⟩ h =>
  congrArg CallId.mk ((ρ.number .call).injective (congrArg CallId.index h))

theorem symbolId_injective : Function.Injective ρ.symbolId := fun ⟨_⟩ ⟨_⟩ h =>
  congrArg SymbolId.mk ((ρ.number .symbol).injective (congrArg SymbolId.index h))

/-- No two vertices become one. A renaming keeps the kind of a vertex and is injective on each kind
of number. -/
theorem vertex_injective : Function.Injective ρ.vertex := by
  intro v w h
  -- vertices of different kinds never become one
  cases v <;> cases w <;> simp only [vertex, reduceCtorEq, Vertex.func.injEq, Vertex.callee.injEq,
    Vertex.native.injEq, Vertex.param.injEq, Vertex.arg.injEq, Vertex.ret.injEq, Vertex.res.injEq,
    Vertex.var.injEq, Vertex.prop.injEq, Vertex.expr.injEq, ExprKey.mk.injEq] at h ⊢
  case func | ret => exact ρ.functionId_injective h
  case param => exact ⟨ρ.functionId_injective h.1, h.2⟩
  case callee | res => exact ρ.callId_injective h
  case arg => exact ⟨ρ.callId_injective h.1, h.2⟩
  case var => exact ρ.symbolId_injective h
  case native | prop => exact h
  case expr k l =>
    obtain ⟨file, span⟩ := k
    obtain ⟨file', span'⟩ := l
    exact (ExprKey.mk.injEq ..).mpr ⟨ρ.fileId_injective h.1, h.2⟩

theorem edge_injective : Function.Injective ρ.edge := fun _ _ h =>
  Prod.ext (ρ.vertex_injective (congrArg Prod.fst h)) (ρ.vertex_injective (congrArg Prod.snd h))

theorem callee_injective : Function.Injective ρ.callee := by
  intro a b h
  cases a <;> cases b <;> simp only [callee, reduceCtorEq, Callee.function.injEq,
    Callee.native.injEq] at h ⊢
  · exact ρ.functionId_injective h
  · exact h

@[simp]
theorem isTracked_vertex (v : Vertex) : (ρ.vertex v).isTracked = v.isTracked := by
  cases v <;> rfl

/-- A vertex without numbers comes from itself only. -/
theorem vertex_eq_native {v : Vertex} {name : String} :
    ρ.vertex v = .native name ↔ v = .native name := by
  cases v <;> simp [vertex]

/-- The callee of a call comes from the callee of one. -/
theorem vertex_eq_callee {v : Vertex} {c : CallId} :
    ρ.vertex v = .callee c ↔ ∃ d, v = .callee d ∧ ρ.callId d = c := by
  cases v <;> simp [vertex]

/-- A function comes from a function. -/
theorem vertex_eq_func {v : Vertex} {f : FunctionId} :
    ρ.vertex v = .func f ↔ ∃ g, v = .func g ∧ ρ.functionId g = f := by
  cases v <;> simp [vertex]

/-- An argument comes from an argument in the same slot. -/
theorem vertex_eq_arg {v : Vertex} {c : CallId} {slot : ℕ} :
    ρ.vertex v = .arg c slot ↔ ∃ d, v = .arg d slot ∧ ρ.callId d = c := by
  cases v <;> simp [vertex, and_comm]

/-! ## Renaming twice -/

/-- Every number stays. -/
def refl : Renaming := ⟨fun _ => .refl ℕ⟩

/-- One renaming after the other. -/
def trans : Renaming := ⟨fun k => (ρ.number k).trans (σ.number k)⟩

@[simp]
theorem vertex_refl (v : Vertex) : refl.vertex v = v := by
  cases v <;> rfl

@[simp]
theorem function_refl (f : Function) : refl.function f = f := by
  obtain ⟨_, _, _, _, enclosing, _⟩ := f
  cases enclosing <;> rfl

@[simp]
theorem site_refl (c : CallSite) : refl.site c = c := by
  obtain ⟨_, _, enclosing, _, _⟩ := c
  cases enclosing <;> rfl

theorem vertex_trans (v : Vertex) : (ρ.trans σ).vertex v = σ.vertex (ρ.vertex v) := by
  cases v <;> rfl

theorem function_trans (f : Function) : (ρ.trans σ).function f = σ.function (ρ.function f) := by
  obtain ⟨_, _, _, _, enclosing, _⟩ := f
  cases enclosing <;> rfl

theorem site_trans (c : CallSite) : (ρ.trans σ).site c = σ.site (ρ.site c) := by
  obtain ⟨_, _, enclosing, _, _⟩ := c
  cases enclosing <;> rfl

/-! ## Renamings that agree on the numbers in use -/

/-- Two renamings give the same new numbers to those in use. -/
def AgreeOn (n : Extent) : Prop := ∀ k, ∀ i < n k, ρ.number k i = σ.number k i

namespace AgreeOn

variable {ρ σ} {n : Extent}

theorem functionId (h : ρ.AgreeOn σ n) {f : FunctionId} (hf : f.index < n .function) :
    ρ.functionId f = σ.functionId f :=
  congrArg FunctionId.mk (h .function _ hf)

theorem callId (h : ρ.AgreeOn σ n) {c : CallId} (hc : c.index < n .call) :
    ρ.callId c = σ.callId c :=
  congrArg CallId.mk (h .call _ hc)

/-- A vertex within the extent has no other numbers. -/
theorem vertex (h : ρ.AgreeOn σ n) {v : Vertex} (hv : v.Within n) :
    ρ.vertex v = σ.vertex v := by
  cases v with
  | func f => exact congrArg Vertex.func (h.functionId hv)
  | param f slot => exact congrArg (Vertex.param · slot) (h.functionId hv)
  | ret f => exact congrArg Vertex.ret (h.functionId hv)
  | callee c => exact congrArg Vertex.callee (h.callId hv)
  | arg c slot => exact congrArg (Vertex.arg · slot) (h.callId hv)
  | res c => exact congrArg Vertex.res (h.callId hv)
  | var s => exact congrArg (fun i => Vertex.var ⟨i⟩) (h .symbol _ hv)
  | expr key => exact congrArg (fun i => Vertex.expr ⟨⟨i⟩, key.span⟩) (h .file _ hv)
  | native _ | unknown | prop _ => rfl

theorem enclosing (h : ρ.AgreeOn σ n) {around : Option FunctionId}
    (hf : ∀ g ∈ around, g.index < n .function) :
    around.map ρ.functionId = around.map σ.functionId :=
  Option.map_congr fun g hg => h.functionId (hf g hg)

theorem function (h : ρ.AgreeOn σ n) {f : Function} (hf : f.Within n) :
    ρ.function f = σ.function f := by
  rw [Renaming.function, Renaming.function, h.enclosing hf.2]
  exact congrArg (fun i => ({ f with file := ⟨i⟩, enclosing := _ } : Function)) (h .file _ hf.1)

theorem site (h : ρ.AgreeOn σ n) {c : CallSite} (hc : c.Within n) :
    ρ.site c = σ.site c := by
  rw [Renaming.site, Renaming.site, h.enclosing hc.2]
  exact congrArg (fun i => ({ c with file := ⟨i⟩, enclosing := _ } : CallSite)) (h .file _ hc.1)

end AgreeOn

/-! ## Moving numbers behind those in use, and exchanging blocks -/

/-- Every number is moved behind those in use. -/
def shift (n : Extent) : Renaming := ⟨fun k => addLeftEmbedding (n k)⟩

/-- Behind the first `s` numbers, a block of `p` and one of `q` numbers change places. -/
def exchange (s p q i : ℕ) : ℕ :=
  if i < s then i else if i < s + p then i + q else if i < s + p + q then i - p else i

theorem exchange_injective (s p q : ℕ) : Function.Injective (exchange s p q) := by
  intro i j h
  simp only [exchange] at h
  split_ifs at h <;> omega

/-- What two parts behind a common start are called in the other order. -/
def swap (n p q : Extent) : Renaming :=
  ⟨fun k => ⟨exchange (n k) (p k) (q k), exchange_injective (n k) (p k) (q k)⟩⟩

/-- The numbers in use stay among themselves, all others keep. -/
def Within (n : Extent) : Prop :=
  ∀ k i, (i < n k → ρ.number k i < n k) ∧ (n k ≤ i → ρ.number k i = i)

variable {n p q : Extent}

theorem vertex_shift_within {v : Vertex} (hv : v.Within p) :
    ((shift n).vertex v).Within (n + p) := by
  cases v with
  | func _ | callee _ | param _ _ | arg _ _ | ret _ | res _ | var _ | expr _ =>
    exact Nat.add_lt_add_left hv _
  | native _ | unknown | prop _ => trivial

theorem enclosing_shift_within {around : Option FunctionId}
    (h : ∀ g ∈ around, g.index < p .function) :
    ∀ g ∈ around.map (shift n).functionId, g.index < (n + p) .function := by
  intro g hg
  obtain ⟨f, hf, rfl⟩ := Option.mem_map.1 hg
  exact Nat.add_lt_add_left (h f hf) _

theorem function_shift_within {f : Function} (hf : f.Within p) :
    ((shift n).function f).Within (n + p) :=
  ⟨Nat.add_lt_add_left hf.1 _, enclosing_shift_within hf.2⟩

theorem site_shift_within {c : CallSite} (hc : c.Within p) :
    ((shift n).site c).Within (n + p) :=
  ⟨Nat.add_lt_add_left hc.1 _, enclosing_shift_within hc.2⟩

theorem within_refl : refl.Within n := fun _ _ => ⟨id, fun _ => rfl⟩

theorem Within.trans {ρ σ : Renaming} (h : ρ.Within n) (h' : σ.Within n) :
    (ρ.trans σ).Within n := by
  refine fun k i => ⟨fun hi => (h' k _).1 ((h k i).1 hi), fun hi => ?_⟩
  rw [show (ρ.trans σ).number k i = σ.number k (ρ.number k i) from rfl, (h k i).2 hi]
  exact (h' k i).2 hi

theorem Within.mono {ρ : Renaming} (h : ρ.Within n) (hnp : n ≤ p) : ρ.Within p := by
  refine fun k i => ⟨fun hi => ?_, fun hi => (h k i).2 ((hnp k).trans hi)⟩
  rcases lt_or_ge i (n k) with hlt | hge
  · exact lt_of_lt_of_le ((h k i).1 hlt) (hnp k)
  · rwa [(h k i).2 hge]

/-- Exchanging two parts stays within the whole. -/
theorem within_swap : (swap n p q).Within (n + p + q) := by
  refine fun k i => ⟨fun hi => ?_, fun hi => ?_⟩
  · show exchange (n k) (p k) (q k) i < n k + p k + q k
    have hi : i < n k + p k + q k := hi
    simp only [exchange]
    split_ifs <;> omega
  · show exchange (n k) (p k) (q k) i = i
    have hi : n k + p k + q k ≤ i := hi
    simp only [exchange]
    split_ifs <;> omega

/-- What comes before the two blocks stays. -/
theorem swap_agreeOn_refl : (swap n p q).AgreeOn refl n := fun _ _ hi => if_pos hi

/-- The first block comes to stand behind the second. -/
theorem shift_swap_agreeOn_first :
    ((shift n).trans (swap n p q)).AgreeOn (shift (n + q)) p := by
  intro k i hi
  show exchange (n k) (p k) (q k) (n k + i) = n k + q k + i
  simp only [exchange]
  split_ifs <;> omega

/-- The second block comes to stand behind what comes before the first. -/
theorem shift_swap_agreeOn_second :
    ((shift (n + p)).trans (swap n p q)).AgreeOn (shift n) q := by
  intro k i hi
  show exchange (n k) (p k) (q k) (n k + p k + i) = n k + i
  simp only [exchange]
  split_ifs <;> omega

/-- A renaming of the numbers in use does nothing to those behind them. -/
theorem Within.shift_agreeOn {ρ : Renaming} (h : ρ.Within n) :
    ((shift n).trans ρ).AgreeOn (shift n) p :=
  fun k _ _ => (h k _).2 (Nat.le_add_right _ _)

/-- A renaming that keeps the first `n` numbers among themselves reaches each of them. -/
theorem exists_lt_of_maps (new : ℕ ↪ ℕ) {n : ℕ} (hmaps : ∀ i < n, new i < n) {j : ℕ}
    (hj : j < n) : ∃ i < n, new i = j := by
  have hmap : (Finset.range n).map new = Finset.range n := by
    refine Finset.eq_of_subset_of_card_le (fun i hi => ?_) (by rw [Finset.card_map])
    obtain ⟨a, ha, rfl⟩ := Finset.mem_map.1 hi
    exact Finset.mem_range.2 (hmaps a (Finset.mem_range.1 ha))
  obtain ⟨i, hi, rfl⟩ := Finset.mem_map.1 (hmap ▸ Finset.mem_range.2 hj)
  exact ⟨i, Finset.mem_range.1 hi, rfl⟩

/-- A renaming that keeps a range reorders it. -/
theorem range_perm (new : ℕ ↪ ℕ) {n : ℕ} (hmaps : ∀ i < n, new i < n) :
    (List.range n).Perm ((List.range n).map new) := by
  refine (List.perm_ext_iff_of_nodup List.nodup_range
    (List.nodup_range.map new.injective)).2 fun j => ?_
  rw [List.mem_range, List.mem_map]
  constructor
  · intro hj
    obtain ⟨i, hi, hij⟩ := exists_lt_of_maps new hmaps hj
    exact ⟨i, List.mem_range.2 hi, hij⟩
  · rintro ⟨i, hi, rfl⟩
    exact hmaps i (List.mem_range.1 hi)

end Renaming

end CallFlow
