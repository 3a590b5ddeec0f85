import CallFlow.Proofs.FileFlow.Visit

/-!
# What a file contributes to a state

Walking a module after other files adds what walking it alone adds, behind what is there. The
empty state and a file make the part that the file contributes, wherever it stands.
-/

namespace CallFlow

open Syntax

namespace Walk

variable {base : FlowState} {w : Twin}

/-! ## The items of a module -/

/-- What an item declares it declares in both walks. -/
theorem alike_hoistItem (item : ModuleItem) :
    Alike base w (hoistItem item) (hoistItem item) := by
  unfold hoistItem
  split
  case h_1 s =>
    split
    · exact .bind (.hoist _) fun _ _ _ _ _ => .declare _ _
    · exact .declare _ _
  case h_4 d => exact .hoist d
  all_goals first | exact .declare _ _ | exact .pure trivial

theorem alike_importName (source : String) (s : ImportSpecifier) :
    Alike base w (importName source s) (importName source s) :=
  .bind (.resolve _) fun _ _ _ _ h => .addImport _ _ h

theorem alike_exportName (name exported : String) :
    Alike base w (exportName name exported) (exportName name exported) :=
  .bind (.resolve _) fun _ _ _ _ h => .addExport _ h

theorem alike_relayName (source : String) (s : ExportSpecifier) :
    Alike base w (relayName source s) (relayName source s) := by
  refine .bind (.exprVertex _) fun u _ a b hab => ?_
  refine .bind (.addImport _ _ hab) fun v hv _ _ _ => ?_
  exact .addExport _ (hab.later hv)

theorem alike_exportValue {a b : Option VertexId} (hab : Option.Rel (w.Same base) a b) :
    Alike base w (exportValue a) (exportValue b) := by
  cases hab with
  | none => exact .pure trivial
  | some hab => exact .addExport _ hab

theorem alike_bindDefault (name : Option String) {a b : VertexId} (hab : w.Same base a b) :
    Alike base w (bindDefault name a) (bindDefault name b) := by
  cases name with
  | none => exact .pure trivial
  | some name => exact .bind (.resolve name) fun u hu _ _ h => .edge (hab.later hu) h

/-- An item of a module. -/
theorem alike_visitItem (item : ModuleItem) :
    Alike base w (visitItem item) (visitItem item) := by
  cases item with
  | stmt s => exact alike_visitStmt s w
  | importNames source specifiers =>
    exact .forM (fun u _ s => alike_importName source s) specifiers
  | importEquals name source =>
    cases source with
    | none => exact .pure trivial
    | some source => exact .bind (.resolve name) fun _ _ _ _ h => .addImport _ _ h
  | exportDecl d =>
    refine .bind (alike_visitDecl d w) fun u _ _ _ _ => ?_
    exact .forM (fun v _ name => alike_exportName name name) _
  | exportDefaultFunction name f =>
    refine .bind (alike_visitFunction name none false f w) fun u _ _ _ hf => ?_
    obtain ⟨rfl, hf⟩ := hf
    refine .bind (.functionVertex hf) fun v _ a b hab => ?_
    refine .bind (alike_bindDefault name hab) fun x hx _ _ _ => ?_
    exact .addExport _ (hab.later hx)
  | exportDefaultClass name c =>
    refine .bind (alike_visitClass name none c w) fun u _ a b hab => ?_
    cases hab with
    | none => exact .pure trivial
    | some hab =>
      refine .bind (alike_bindDefault name hab) fun v hv _ _ _ => ?_
      exact .addExport _ (hab.later hv)
  | exportDefaultExpr e =>
    exact .bind (alike_visit _ e w) fun _ _ _ _ h => alike_exportValue h.result
  | exportAssignment e =>
    exact .bind (alike_visit _ e w) fun _ _ _ _ h => alike_exportValue h.result
  | exportNames source specifiers =>
    cases source with
    | none => exact .forM (fun u _ s => alike_exportName s.given s.exported) specifiers
    | some source => exact .forM (fun u _ s => alike_relayName source s) specifiers
  | inert => exact .pure trivial

/-- A module. All its items are hoisted in both walks before the first one is visited. -/
theorem alike_visitModule (m : Module) : Alike base w (visitModule m) (visitModule m) := by
  refine .bind (.forM (fun u _ item => alike_hoistItem item) m.items) fun u _ _ _ _ => ?_
  exact .forM (fun v _ item => alike_visitItem item) m.items

end Walk

/-! ## The whole file -/

namespace FlowState

/-- What a file contributes: its flow on its own. -/
def part (path : Path) (lines : LineTable) (m : Module) : ModuleRecord × FlowState :=
  ({} : FlowState).addFile path lines m

variable {base : FlowState}

/-- An open file has contributed its own number and a scope for the module, and nothing else so far.
-/
theorem copies_opened (h : base.Sound) (path : Path) :
    (⟨({} : FlowState).opened path, base.opened path⟩ : Twin).Copies base where
  sound := h
  sound_alone := (Sound.empty.addFile path).createScope _ _
  sound_amid := (h.addFile path).createScope _ _
  nested := ScopeTree.nested_create_empty
  files := Array.push_eq_append ..
  functions := by simp [opened, Program.addFile, Program.empty]
  calls := by simp [opened, Program.addFile, Program.empty]
  scopes := by
    -- The one tree has the global scope only, the other one has what the base has.
    have hgrafted : ScopeTree.Grafted base.scopes ScopeTree.empty base.scopes := by
      refine ⟨rfl, fun s => ?_⟩
      obtain ⟨i⟩ := s
      cases i with
      | zero => exact h.root
      | succ i => simp [ScopeTree.scope?, ScopeTree.moved, ScopeTree.size, ScopeTree.empty]
    exact hgrafted.create (ScopeTree.size_pos h.root) Nat.one_pos .moduleScope ScopeTree.global
  symbols := by
    refine ⟨rfl, fun s name => ?_⟩
    show base.symbols.binding? _ name = (SymbolTable.empty.binding? s name).map _
    have hnone : SymbolTable.empty.binding? s name = none := by
      simp [SymbolTable.binding?, SymbolTable.empty]
    rw [hnone, Option.map_none]
    -- neither the global scope nor one that is new has names
    by_contra hsome
    obtain ⟨id, hid⟩ := Option.ne_none_iff_exists'.1 hsome
    obtain ⟨hpos, hlt, -⟩ := h.binds _ _ _ hid
    obtain ⟨i⟩ := s
    cases i with
    | zero => exact absurd hpos (lt_irrefl 0)
    | succ i => exact absurd hlt (Nat.not_lt.2 (Nat.le_add_right _ _))
  vertices v := by
    show base.graph.Has v ↔ _ ∨ ∃ u, FlowGraph.empty.Has u ∧ _
    simp
  edges := by
    show base.graph.edgeSet = _ ∪ _ '' FlowGraph.empty.edgeSet
    simp
  keeps _ _ hv := hv
  written name := FlowGraph.not_has_empty _
  own := ⟨rfl, rfl⟩
  record := by
    refine ⟨{ file := ⟨0⟩, path }, ⟨⟨rfl, rfl, .nil, .nil, rfl⟩, List.forall_mem_nil _⟩, ?_⟩
    exact ⟨⟨rfl, rfl, .nil, .nil, rfl⟩, List.forall_mem_nil _⟩

/-- **What a file contributes.** Behind what a state has, a file adds what it adds alone. -/
theorem copies_addFile (h : base.Sound) (path : Path) (lines : LineTable) (m : Module) :
    let part := part path lines m
    let later := base.addFile path lines m
    (⟨⟨part.2, part.1⟩, ⟨later.2, later.1⟩⟩ : Twin).Copies base := by
  have hplaced : (⟨({} : FlowState).opened path, base.opened path⟩ : Twin).Placed
      (({} : FlowState).opening lines) :=
    { file := Nat.one_pos
      scope_pos := Nat.one_pos
      scope_lt := Nat.one_lt_two
      function := nofun
      receiver := nofun }
  obtain ⟨hcopies, -⟩ := Walk.alike_visitModule m _ (copies_opened h path) hplaced
  simp only [part, addFile_eq]
  exact hcopies

/-- The module of a file by vertices. Its record names them wherever the file stands. -/
theorem exists_view (path : Path) (lines : LineTable) (m : Module) :
    ∃ view : ModuleView, view.file = ⟨0⟩ ∧ view.Within (part path lines m).2.extent ∧
      (part path lines m).2.program.files = #[view.path] ∧
      ∀ base : FlowState, base.Sound →
        (base.addFile path lines m).1.Denotes (base.addFile path lines m).2.graph
          (base.shift.view view) := by
  have hempty := copies_addFile Sound.empty path lines m
  obtain ⟨view, hview, -⟩ := hempty.record
  obtain ⟨hfile, hfiles⟩ := hempty.own
  have hzero : view.file = ⟨0⟩ := hview.file.symm.trans hfile
  refine ⟨view, hzero, ⟨?_, fun v hv => hempty.sound_alone.vertices v (hview.has hv)⟩, ?_,
    fun base h => ?_⟩
  · have hsize : (part path lines m).2.extent .file = 1 := congrArg Array.size hfiles
    rw [hzero, hsize]
    exact Nat.one_pos
  · rw [← hview.path]
    exact hfiles
  · -- the record of the file alone has one view only
    obtain ⟨other, halone, hamid⟩ := (copies_addFile h path lines m).record
    rw [hview.unique halone]
    exact hamid

end FlowState

end CallFlow
