import CallFlow.Proofs.FileFlow.File
import CallFlow.Proofs.Lists
import CallFlow.Proofs.Renaming.Mirror

/-!
# What a state says

The facts of a state are its files, functions and calls with their numbers, its vertices and its
edges. A file adds the facts of its own part, moved behind what is there. So two states which say
the same up to a renaming still do after one more file, and after two files in either order.
-/

namespace CallFlow

/-- Something that a state says. -/
inductive Fact
  | file (id : FileId) (path : Path)
  | function (id : FunctionId) (function : Function)
  | call (id : CallId) (site : CallSite)
  | vertex (v : Vertex)
  | edge (e : Vertex × Vertex)

namespace Fact

/-- The numbers in a fact are in use. -/
def Within (n : Extent) : Fact → Prop
  | file id _ => id.index < n .file
  | function id f => id.index < n .function ∧ f.Within n
  | call id site => id.index < n .call ∧ site.Within n
  | vertex v => v.Within n
  | edge e => e.1.Within n ∧ e.2.Within n

/-- There are five kinds of facts. -/
theorem exists_iff {P : Fact → Prop} :
    (∃ x, P x) ↔ (∃ id path, P (.file id path)) ∨ (∃ id f, P (.function id f)) ∨
      (∃ id site, P (.call id site)) ∨ (∃ v, P (.vertex v)) ∨ ∃ e, P (.edge e) := by
  constructor
  · rintro ⟨x, hx⟩
    cases x with
    | file id path => exact Or.inl ⟨id, path, hx⟩
    | function id f => exact Or.inr (Or.inl ⟨id, f, hx⟩)
    | call id site => exact Or.inr (Or.inr (Or.inl ⟨id, site, hx⟩))
    | vertex v => exact Or.inr (Or.inr (Or.inr (Or.inl ⟨v, hx⟩)))
    | edge e => exact Or.inr (Or.inr (Or.inr (Or.inr ⟨e, hx⟩)))
  · rintro (⟨_, _, h⟩ | ⟨_, _, h⟩ | ⟨_, _, h⟩ | ⟨_, h⟩ | ⟨_, h⟩) <;> exact ⟨_, h⟩

end Fact

namespace Renaming

/-- The fact with its numbers renamed. -/
def fact (ρ : Renaming) : Fact → Fact
  | .file id path => .file (ρ.fileId id) path
  | .function id f => .function (ρ.functionId id) (ρ.function f)
  | .call id site => .call (ρ.callId id) (ρ.site site)
  | .vertex v => .vertex (ρ.vertex v)
  | .edge e => .edge (ρ.edge e)

variable {ρ σ : Renaming}

/-- A renaming that keeps all numbers keeps all facts. -/
@[simp]
theorem fact_refl (x : Fact) : refl.fact x = x := by
  cases x with
  | file _ _ => rfl
  | function id f => exact congrArg (Fact.function id) (function_refl f)
  | call id site => exact congrArg (Fact.call id) (site_refl site)
  | vertex v => exact congrArg Fact.vertex (vertex_refl v)
  | edge e => exact congrArg Fact.edge (Prod.ext (vertex_refl e.1) (vertex_refl e.2))

/-- Facts may be renamed step by step. -/
theorem fact_trans (x : Fact) : (ρ.trans σ).fact x = σ.fact (ρ.fact x) := by
  cases x with
  | file _ _ => rfl
  | function id f => exact congrArg (Fact.function _) (function_trans ρ σ f)
  | call id site => exact congrArg (Fact.call _) (site_trans ρ σ site)
  | vertex v => exact congrArg Fact.vertex (vertex_trans ρ σ v)
  | edge e =>
    exact congrArg Fact.edge (Prod.ext (vertex_trans ρ σ e.1) (vertex_trans ρ σ e.2))

/-- A fact only names numbers within some extent. -/
theorem AgreeOn.fact {n : Extent} (h : ρ.AgreeOn σ n) {x : Fact} (hx : x.Within n) :
    ρ.fact x = σ.fact x := by
  cases x with
  | file id path => exact congrArg (fun i => Fact.file ⟨i⟩ path) (h .file _ hx)
  | function id f =>
    rw [Renaming.fact, Renaming.fact, h.functionId hx.1, h.function hx.2]
  | call id site => rw [Renaming.fact, Renaming.fact, h.callId hx.1, h.site hx.2]
  | vertex v => exact congrArg Fact.vertex (h.vertex hx)
  | edge e => exact congrArg Fact.edge (Prod.ext (h.vertex hx.1) (h.vertex hx.2))

end Renaming

namespace FlowState

/-- The state says this. -/
def Says (s : FlowState) : Fact → Prop
  | .file id path => s.program.file? id = some path
  | .function id f => s.program.function? id = some f
  | .call id site => s.program.call? id = some site
  | .vertex v => s.graph.Has v
  | .edge e => e ∈ s.graph.edgeSet

theorem not_says_empty (x : Fact) : ¬ ({} : FlowState).Says x := fun hx => by
  cases x with
  | file _ _ | function _ _ | call _ _ => cases hx
  | vertex v => exact FlowGraph.not_has_empty v hx
  | edge e => exact FlowGraph.not_has_empty _ (FlowGraph.has_of_mem_edgeSet hx).1

/-- All that is said is said of numbers in use. -/
theorem Sound.within {s : FlowState} (h : s.Sound) {x : Fact} (hx : s.Says x) :
    x.Within s.extent := by
  cases x with
  | file id path => exact (Array.getElem?_eq_some_iff.1 hx).1
  | function id f =>
    exact ⟨(Array.getElem?_eq_some_iff.1 hx).1, h.functions f (Array.mem_of_getElem? hx)⟩
  | call id site =>
    exact ⟨(Array.getElem?_eq_some_iff.1 hx).1, h.calls site (Array.mem_of_getElem? hx)⟩
  | vertex v => exact h.vertices v hx
  | edge e =>
    obtain ⟨hsource, htarget⟩ := FlowGraph.has_of_mem_edgeSet hx
    exact ⟨h.vertices _ hsource, h.vertices _ htarget⟩

end FlowState

/-! ## What a file adds -/

namespace Twin.Copies

variable {base : FlowState} {w : Twin}

/-- What a state says amid other files: what the others say, and what the file says alone. -/
theorem facts_iff (h : w.Copies base) (x : Fact) :
    w.amid.flow.Says x ↔ base.Says x ∨ ∃ y, w.alone.flow.Says y ∧ base.shift.fact y = x := by
  rw [Fact.exists_iff]
  -- For each kind of fact the states are compared in the field that it is a fact about.
  cases x with
  | file id path =>
    obtain ⟨i⟩ := id
    simp only [FlowState.Says, Program.file?, h.files, getElem?_append_eq_some_iff, Renaming.fact,
      Fact.file.injEq, reduceCtorEq, and_false, exists_false, or_false]
    refine or_congr_right ⟨fun ⟨j, hj, hi⟩ => ⟨⟨j⟩, path, hj, congrArg FileId.mk hi, rfl⟩, ?_⟩
    rintro ⟨⟨j⟩, _, hj, hi, rfl⟩
    exact ⟨j, hj, congrArg FileId.index hi⟩
  | function id f =>
    obtain ⟨i⟩ := id
    simp only [FlowState.Says, Program.function?, h.functions, getElem?_append_eq_some_iff,
      Array.getElem?_map, Option.map_eq_some_iff, Renaming.fact, Fact.function.injEq, reduceCtorEq,
      and_false, exists_false, or_false, false_or]
    refine or_congr_right ⟨fun ⟨j, ⟨g, hg, hf⟩, hi⟩ =>
      ⟨⟨j⟩, g, hg, congrArg FunctionId.mk hi, hf⟩, ?_⟩
    rintro ⟨⟨j⟩, g, hg, hi, hf⟩
    exact ⟨j, ⟨g, hg, hf⟩, congrArg FunctionId.index hi⟩
  | call id site =>
    obtain ⟨i⟩ := id
    simp only [FlowState.Says, Program.call?, h.calls, getElem?_append_eq_some_iff,
      Array.getElem?_map, Option.map_eq_some_iff, Renaming.fact, Fact.call.injEq, reduceCtorEq,
      and_false, exists_false, or_false, false_or]
    refine or_congr_right ⟨fun ⟨j, ⟨g, hg, hf⟩, hi⟩ => ⟨⟨j⟩, g, hg, congrArg CallId.mk hi, hf⟩, ?_⟩
    rintro ⟨⟨j⟩, g, hg, hi, hf⟩
    exact ⟨j, ⟨g, hg, hf⟩, congrArg CallId.index hi⟩
  | vertex v =>
    simp only [FlowState.Says, h.vertices, Renaming.fact, Fact.vertex.injEq, reduceCtorEq,
      and_false, exists_false, or_false, false_or]
  | edge e =>
    simp only [FlowState.Says, h.edges, Set.mem_union, Set.mem_image, Renaming.fact,
      Fact.edge.injEq, reduceCtorEq, and_false, exists_false, false_or]

end Twin.Copies

namespace FlowState

/-- The state `later` says what `base` says and, behind it, what `part` says. -/
structure Appends (base part later : FlowState) : Prop where
  sound : base.Sound
  sound_part : part.Sound
  sound_later : later.Sound
  extent : later.extent = base.extent + part.extent
  facts : ∀ x, later.Says x ↔ base.Says x ∨ ∃ y, part.Says y ∧ base.shift.fact y = x
  written : ∀ name, ¬ part.graph.Has (.native name)

/-- A file appends what it contributes. -/
theorem appends_addFile {base : FlowState} (h : base.Sound) (path : Path) (lines : LineTable)
    (m : Syntax.Module) :
    base.Appends (part path lines m).2 (base.addFile path lines m).2 := by
  have hcopies := copies_addFile h path lines m
  exact
    { sound := h
      sound_part := hcopies.sound_alone
      sound_later := hcopies.sound_amid
      extent := hcopies.extent_amid
      facts := hcopies.facts_iff
      written := hcopies.written }

/-- What is appended has no built-in functions. -/
theorem Appends.has_native {base part later : FlowState} (h : base.Appends part later)
    {name : String} (hname : later.graph.Has (.native name)) : base.graph.Has (.native name) := by
  rcases (h.facts (.vertex (.native name))).1 hname with hold | ⟨y, hy, heq⟩
  · exact hold
  · cases y with
    | vertex v =>
      obtain rfl := (base.shift.vertex_eq_native).1 (Fact.vertex.inj heq)
      exact absurd hy (h.written name)
    | file _ _ | function _ _ | call _ _ | edge _ => cases heq

/-- Nothing is appended. -/
theorem Appends.empty {s : FlowState} (h : s.Sound) : s.Appends {} s where
  sound := h
  sound_part := .empty
  sound_later := h
  extent := funext fun k => by cases k <;> rfl
  facts x := by simp [not_says_empty]
  written name := FlowGraph.not_has_empty _

/-- The facts about built-in functions. -/
def Builtin (extra : Set String) (x : Fact) : Prop :=
  ∃ name ∈ extra, x = .vertex (.native name) ∨ x = .vertex (.prop (Builtin.property name)) ∨
    x = .edge (Builtin.link name)

/-- The one state says what the other says, under new numbers for those in use, and besides that
has the built-in functions in `extra`. -/
structure Mirrors (extra : Set String) (ρ : Renaming) (s s' : FlowState) : Prop where
  sound : s.Sound
  sound' : s'.Sound
  extent : s'.extent = s.extent
  within : ρ.Within s.extent
  facts : ∀ x', s'.Says x' ↔ (∃ x, s.Says x ∧ ρ.fact x = x') ∨ Builtin extra x'
  apart : ∀ name ∈ extra, ¬ s.graph.Has (.native name)

namespace Mirrors

variable {extra : Set String} {ρ σ : Renaming} {s s' s'' : FlowState}

/-- A state says what it says itself. -/
theorem refl (h : s.Sound) : Mirrors ∅ .refl s s where
  sound := h
  sound' := h
  extent := rfl
  within := Renaming.within_refl
  facts := by simp [Builtin]
  apart := nofun

/-- Renamings of what is said are composed. -/
theorem trans (h : Mirrors ∅ ρ s s') (h' : Mirrors ∅ σ s' s'') :
    Mirrors ∅ (ρ.trans σ) s s'' where
  sound := h.sound
  sound' := h'.sound'
  extent := h'.extent.trans h.extent
  within := h.within.trans (h.extent ▸ h'.within)
  facts x' := by
    have hnone : ∀ x, ¬ Builtin ∅ x := by simp [Builtin]
    rw [h'.facts]
    simp only [hnone, or_false, h.facts, Renaming.fact_trans]
    constructor
    · rintro ⟨_, ⟨x, hx, rfl⟩, rfl⟩
      exact ⟨x, hx, rfl⟩
    · rintro ⟨x, hx, rfl⟩
      exact ⟨_, ⟨x, hx, rfl⟩, rfl⟩
  apart := nofun

/-! ### The program and the graph -/

/-- The programs of two such states are the same up to the renaming. -/
theorem program (h : Mirrors extra ρ s s') : s.program.Renamed ρ s'.program where
  file? i := Option.ext fun path => by
    have hfact := h.facts (.file (ρ.fileId i) path)
    simpa [Fact.exists_iff, Renaming.fact, Builtin, ρ.fileId_injective.eq_iff, Says] using hfact
  function? f := Option.ext fun x => by
    have hfact := h.facts (.function (ρ.functionId f) x)
    simpa [Fact.exists_iff, Renaming.fact, Builtin, ρ.functionId_injective.eq_iff, Says]
      using hfact
  call? c := Option.ext fun x => by
    have hfact := h.facts (.call (ρ.callId c) x)
    simpa [Fact.exists_iff, Renaming.fact, Builtin, ρ.callId_injective.eq_iff, Says] using hfact
  files := congrFun h.extent .file
  functions := congrFun h.extent .function
  calls := congrFun h.extent .call

/-- Their graphs are the same up to the renaming, too. -/
theorem graph (h : Mirrors extra ρ s s') : FlowGraph.Mirrors extra ρ s.graph s'.graph where
  vertices v' := by
    have hfact := h.facts (.vertex v')
    simpa [Fact.exists_iff, Renaming.fact, Builtin, Says] using hfact
  edges e' := by
    have hfact := h.facts (.edge e')
    simpa [Fact.exists_iff, Renaming.fact, Builtin, Says, eq_comm (a := e')] using hfact
  flagged v' := by
    refine ⟨fun hv => absurd hv (h.sound'.unflagged v'), ?_⟩
    rintro ⟨v, hv, -⟩
    exact absurd hv (h.sound.unflagged v)
  apart := h.apart

/-! ### Files -/

/-- Both states have as many of everything, so what comes next is moved as far. -/
theorem shift_eq (h : Mirrors extra ρ s s') : s'.shift = s.shift :=
  congrArg Renaming.shift h.extent

/-- Two states to which the same is appended still say the same. -/
theorem appends {part later later' : FlowState} (h : Mirrors extra ρ s s')
    (hlater : s.Appends part later) (hlater' : s'.Appends part later') :
    Mirrors extra ρ later later' := by
  refine
    { sound := hlater.sound_later
      sound' := hlater'.sound_later
      extent := by rw [hlater.extent, hlater'.extent, h.extent]
      within := hlater.extent ▸ h.within.mono fun k => Nat.le_add_right _ _
      facts := fun x' => ?_
      apart := fun name hname hhas => h.apart name hname (hlater.has_native hhas) }
  -- behind what is there, the renaming does nothing
  have hshift : ∀ y, part.Says y → ρ.fact (s.shift.fact y) = s'.shift.fact y := fun y hy => by
    rw [h.shift_eq, ← Renaming.fact_trans]
    exact h.within.shift_agreeOn.fact (hlater.sound_part.within hy)
  rw [hlater'.facts x', h.facts, or_right_comm]
  refine or_congr_left ?_
  simp only [hlater.facts, or_and_right, exists_or]
  refine or_congr_right ⟨?_, ?_⟩
  · rintro ⟨y, hy, rfl⟩
    exact ⟨_, ⟨y, hy, rfl⟩, hshift y hy⟩
  · rintro ⟨_, ⟨y, hy, rfl⟩, rfl⟩
    exact ⟨y, hy, (hshift y hy).symm⟩

end Mirrors

/-- Two parts that are appended in either order say the same. -/
theorem Appends.swap {s p q sp sq spq sqp : FlowState} (hp : s.Appends p sp)
    (hpq : sp.Appends q spq) (hq : s.Appends q sq) (hqp : sq.Appends p sqp) :
    Mirrors ∅ (.swap s.extent p.extent q.extent) spq sqp := by
  have hextent : spq.extent = s.extent + p.extent + q.extent := hpq.extent.trans (by rw [hp.extent])
  have hextent' : sqp.extent = s.extent + q.extent + p.extent :=
    hqp.extent.trans (by rw [hq.extent])
  refine
    { sound := hpq.sound_later
      sound' := hqp.sound_later
      extent := hextent'.trans ((add_right_comm ..).trans hextent.symm)
      within := hextent ▸ Renaming.within_swap
      facts := fun x' => ?_
      apart := nofun }
  -- what was there stays, and each part comes to stand where the other one stood
  have hbase : ∀ x, s.Says x → (Renaming.swap s.extent p.extent q.extent).fact x = x :=
    fun x hx => (Renaming.swap_agreeOn_refl.fact (hp.sound.within hx)).trans (Renaming.fact_refl x)
  have hfirst : ∀ y, p.Says y →
      (Renaming.swap s.extent p.extent q.extent).fact (s.shift.fact y) = sq.shift.fact y :=
    fun y hy => by
      rw [shift, shift, hq.extent, ← Renaming.fact_trans]
      exact Renaming.shift_swap_agreeOn_first.fact (hp.sound_part.within hy)
  have hsecond : ∀ y, q.Says y →
      (Renaming.swap s.extent p.extent q.extent).fact (sp.shift.fact y) = s.shift.fact y :=
    fun y hy => by
      rw [shift, shift, hp.extent, ← Renaming.fact_trans]
      exact Renaming.shift_swap_agreeOn_second.fact (hq.sound_part.within hy)
  rw [hqp.facts, hq.facts]
  simp only [hpq.facts, hp.facts]
  constructor
  · rintro ((hx | ⟨y, hy, rfl⟩) | ⟨y, hy, rfl⟩)
    · exact Or.inl ⟨x', Or.inl (Or.inl hx), hbase x' hx⟩
    · exact Or.inl ⟨_, Or.inr ⟨y, hy, rfl⟩, hsecond y hy⟩
    · exact Or.inl ⟨_, Or.inl (Or.inr ⟨y, hy, rfl⟩), hfirst y hy⟩
  · rintro (⟨x, (hx | ⟨y, hy, rfl⟩) | ⟨y, hy, rfl⟩, rfl⟩ | ⟨name, hname, -⟩)
    · exact Or.inl (Or.inl ((hbase x hx).symm ▸ hx))
    · exact Or.inr ⟨y, hy, (hfirst y hy).symm⟩
    · exact Or.inl (Or.inr ⟨y, hy, (hsecond y hy).symm⟩)
    · cases hname

end FlowState

end CallFlow
