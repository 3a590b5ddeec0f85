import CallFlow.Proofs.FileFlow.File
import CallFlow.Proofs.FileFlow.LawfulVisit

/-!
# What a file adds to any state

The walk over a module grows the state that it is started in, whatever has been done to that state
before: other files may have been walked, linked and propagated.
-/

namespace CallFlow

open Syntax

namespace Walk

variable {file : WalkedFile} {s : FileState}

/-- What an item of a module declares before any item is visited. -/
theorem lawful_hoistItem (item : ModuleItem) : Lawful file s (hoistItem item) := by
  unfold hoistItem
  split
  -- A statement declares the names of every `var` inside of it, and if it is a declaration its own.
  case h_1 stmt =>
    split
    · exact .bind (.hoist _) fun _ _ _ _ => .declare _ _
    · exact .declare _ _
  case h_4 d => exact .hoist d
  all_goals first | exact .declare _ _ | exact .pure trivial

/-- A name that is imported is a variable, and what is offered elsewhere gets into it. -/
theorem lawful_importName (source : String) (specifier : ImportSpecifier) :
    Lawful file s (importName source specifier) :=
  .bind (.resolve _) fun _ _ _ h => .addImport _ _ h.target

theorem lawful_exportName (name exported : String) :
    Lawful file s (exportName name exported) :=
  .bind (.resolve _) fun _ _ _ h => .addExport _ h.source

/-- A name that is passed on has a vertex of its own, which takes what is offered elsewhere and
offers it. -/
theorem lawful_relayName (source : String) (specifier : ExportSpecifier) :
    Lawful file s (relayName source specifier) := by
  refine .bind (.exprVertex _) fun t _ relay hrelay => ?_
  refine .bind (.addImport _ _ hrelay.target) fun u hu _ _ => ?_
  exact .addExport _ (hrelay.later hu).source

theorem lawful_exportValue {value : Option VertexId} (hvalue : s.Value value) :
    Lawful file s (exportValue value) := by
  cases value with
  | none => exact .pure trivial
  | some value => exact .addExport _ (hvalue value rfl)

/-- A function or class that is the default export may have a name, and is its value. -/
theorem lawful_bindDefault (name : Option String) {value : VertexId} (hvalue : s.Source value) :
    Lawful file s (bindDefault name value) := by
  cases name with
  | none => exact .pure trivial
  | some name => exact .bind (.resolve name) fun t ht _ h => .edge (hvalue.later ht) h.target

/-- An item of a module. What it holds is part of the module. -/
theorem lawful_visitItem (item : ModuleItem)
    (hheld : ∀ piece ∈ item.parts, file.module.Holds piece) : Lawful file s (visitItem item) := by
  cases item with
  | stmt stmt => exact lawful_visitStmt stmt s (hheld _ List.mem_cons_self)
  | importNames source specifiers =>
    exact .forM fun specifier _ t _ => lawful_importName source specifier
  | importEquals name source =>
    cases source with
    | none => exact .pure trivial
    | some source => exact .bind (.resolve name) fun _ _ _ h => .addImport _ _ h.target
  | exportDecl d =>
    refine .bind (lawful_visitDecl d s (hheld _ List.mem_cons_self)) fun t _ _ _ => ?_
    exact .forM fun name _ u _ => lawful_exportName name name
  | exportDefaultFunction name f =>
    refine .bind (lawful_visitFunction name none false f s (hheld _ List.mem_cons_self))
      fun t _ _ hf => ?_
    refine .bind (.functionVertex hf.registered) fun u _ value hvalue => ?_
    -- The vertex of the function is older than what is done with its name.
    refine .bind (lawful_bindDefault name hvalue) fun x hx _ _ => ?_
    exact .addExport _ (hvalue.later hx)
  | exportDefaultClass name c =>
    refine .bind (lawful_visitClass name none c s (hheld _ List.mem_cons_self))
      fun t _ value hvalue => ?_
    cases value with
    | none => exact .pure trivial
    | some value =>
      refine .bind (lawful_bindDefault name (hvalue value rfl)) fun u hu _ _ => ?_
      exact .addExport _ ((hvalue value rfl).later hu)
  | exportDefaultExpr e =>
    exact .bind (lawful_visit _ e s (hheld _ List.mem_cons_self))
      fun _ _ _ h => lawful_exportValue h.result
  | exportAssignment e =>
    exact .bind (lawful_visit _ e s (hheld _ List.mem_cons_self))
      fun _ _ _ h => lawful_exportValue h.result
  | exportNames source specifiers =>
    cases source with
    | none => exact .forM fun specifier _ t _ => lawful_exportName _ _
    | some source => exact .forM fun specifier _ t _ => lawful_relayName source specifier
  | inert => exact .pure trivial

theorem lawful_visitModule : Lawful file s (visitModule file.module) := by
  refine .bind (.forM fun item _ t _ => lawful_hoistItem item) fun t _ _ _ => ?_
  -- Every item is walked with the pieces of syntax that it holds, and these are held by the module.
  exact .forM fun item hitem u _ =>
    lawful_visitItem item fun piece hpiece => Module.holds_item hitem hpiece

end Walk

namespace FlowState

/-- The file that is walked next. -/
def next (s : FlowState) (lines : LineTable) (m : Module) : WalkedFile where
  id := ⟨s.program.files.size⟩
  lines
  module := m

/-- Opening a file takes nothing away. -/
theorem Later.opened (s : FlowState) (path : Path) : s.Later (s.opened path).flow :=
  { refl s with
    files := fun id path' h => by
      have hlt : id.index < s.program.files.size := (Array.getElem?_eq_some_iff.1 h).1
      exact (Array.getElem?_push_lt hlt).trans ((Array.getElem?_eq_getElem hlt).symm.trans h)
    scopes := fun _ _ h => ScopeTree.scope?_create_of_some h _ _ }

/-- The walk over a file starts at a place that is in the file. -/
theorem opening_in (s : FlowState) (path : Path) (lines : LineTable) (m : Module) :
    (s.opening lines).In (s.next lines m) (s.opened path).flow where
  id := rfl
  lines := rfl
  known := ⟨path, Array.getElem?_push_size⟩
  function := nofun
  receiver := nofun

/-- **A file only grows the state.** From the opened file to the end of the walk over its module
every step is one of growth. -/
theorem grows_addFile {s : FlowState} (hclosed : s.symbols.Closed) (path : Path)
    (lines : LineTable) (m : Module) :
    (s.opened path).Grows (s.next lines m) .none
      ⟨(s.addFile path lines m).2, (s.addFile path lines m).1⟩ := by
  have hlawful : Walk.Lawful (s.next lines m) (s.opened path) (Walk.visitModule m) :=
    Walk.lawful_visitModule
  rw [addFile_eq]
  exact (hlawful (s.opening lines) hclosed (opening_in s path lines m)).1

end FlowState

end CallFlow
