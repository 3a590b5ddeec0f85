import CallFlow.Proofs.FileFlow.Bindings
import CallFlow.Proofs.FileFlow.LawfulFile

/-!
# What the items of a module leave in its record

An import binds a name in the module scope and asks another module for a value that flows to it. An
item that passes a name of another module on asks for the value too, and exports what receives it.
Both are in the record of the module once the item has been walked, and stay there.
-/

namespace CallFlow

open Syntax

/-- What is asked of a module for a name that it exports. -/
def ImportedName.ofName (name : String) : ImportedName :=
  if name = "default" then .default else .named name

namespace Syntax

/-- The name of an import clause binds what another module exports under the name `asked`. -/
inductive ImportSpecifier.Binds : ImportSpecifier → (asked name : String) → Prop
  | named (asked name : String) : Binds (.named asked name) asked name
  | default (name : String) : Binds (.default name) "default" name

namespace ModuleItem

/-- The item imports what another module exports under the name `asked`, and binds it to `name`. -/
inductive Imports : ModuleItem → (source asked name : String) → Prop
  | names {source asked name : String} {specifiers : List ImportSpecifier}
      {specifier : ImportSpecifier} (h : specifier ∈ specifiers)
      (hbinds : specifier.Binds asked name) :
      Imports (.importNames source specifiers) source asked name
  | equals (source name : String) : Imports (.importEquals name (some source)) source "default" name

/-- The item passes a name of another module on. -/
inductive Relays : ModuleItem → (source : String) → ExportSpecifier → Prop
  | mk {source : String} {specifiers : List ExportSpecifier} {specifier : ExportSpecifier}
      (h : specifier ∈ specifiers) : Relays (.exportNames (some source) specifiers) source specifier

end ModuleItem

end Syntax

namespace ModuleRecord

/-- The record asks another module for a name, to flow to the variable that a name is bound to. -/
def Binds (record : ModuleRecord) (flow : FlowState) (source asked : String) (scope : ScopeId)
    (name : String) : Prop :=
  ∃ x target, flow.symbols.binding? scope name = some x ∧ flow.graph.find? (.var x) = some target ∧
    ⟨source, .ofName asked, target⟩ ∈ record.imports

/-- The record asks another module for a name and exports the vertex that receives it. -/
def PassesOn (record : ModuleRecord) (flow : FlowState) (source : String)
    (specifier : ExportSpecifier) (file : FileId) : Prop :=
  ∃ relay, flow.graph.find? (.expr ⟨file, specifier.span⟩) = some relay ∧
    ⟨source, .ofName specifier.given, relay⟩ ∈ record.imports ∧
    ⟨specifier.exported, relay⟩ ∈ record.exports

end ModuleRecord

/-- The imports of an item, with their bindings, and the names that it passes on are in the record
of its module. -/
structure Syntax.ModuleItem.Recorded (item : ModuleItem) (flow : FlowState) (record : ModuleRecord)
    (file : FileId) (scope : ScopeId) : Prop where
  imports : ∀ source asked name, item.Imports source asked name →
    record.Binds flow source asked scope name
  relays : ∀ source specifier, item.Relays source specifier →
    record.PassesOn flow source specifier file

/-- What a record exports and imports stays in it. -/
structure ModuleRecord.Later (a b : ModuleRecord) : Prop where
  path : b.path = a.path
  exports : ∀ e ∈ a.exports, e ∈ b.exports
  imports : ∀ i ∈ a.imports, i ∈ b.imports

theorem ModuleRecord.Later.refl (record : ModuleRecord) : record.Later record :=
  ⟨rfl, fun _ => id, fun _ => id⟩

/-- A walk only adds to the record. -/
theorem FileState.Grows.record_later {file : WalkedFile} {passing : Passing} {s t : FileState}
    (h : Grows file passing s t) : s.record.Later t.record := by
  induction h with
  | trans _ _ ih ih' =>
    exact ⟨ih'.path.trans ih.path, fun e he => ih'.exports e (ih.exports e he),
      fun i hi => ih'.imports i (ih.imports i hi)⟩
  | function _ _ _ _ _ ih => exact ih
  | call _ _ _ _ _ _ ih => exact ih
  | «export» _ _ _ => exact ⟨rfl, fun _ => Array.mem_push_of_mem _, fun _ => id⟩
  | «import» _ _ _ _ => exact ⟨rfl, fun _ => id, fun _ => Array.mem_push_of_mem _⟩
  | require _ _ => exact ⟨rfl, fun _ => id, fun _ => id⟩
  | _ => exact .refl _

section

variable {flow flow' : FlowState} {record record' : ModuleRecord} (hflow : flow.Later flow')
  (hrecord : record.Later record')
include hflow hrecord

theorem ModuleRecord.Binds.later {source asked name : String} {scope : ScopeId}
    (h : record.Binds flow source asked scope name) :
    record'.Binds flow' source asked scope name := by
  obtain ⟨x, target, hx, htarget, himport⟩ := h
  exact ⟨x, target, hflow.bindings _ _ _ hx, hflow.vertices _ _ htarget,
    hrecord.imports _ himport⟩

theorem ModuleRecord.PassesOn.later {source : String} {specifier : ExportSpecifier} {file : FileId}
    (h : record.PassesOn flow source specifier file) :
    record'.PassesOn flow' source specifier file := by
  obtain ⟨relay, hrelay, himport, hexport⟩ := h
  exact ⟨relay, hflow.vertices _ _ hrelay, hrecord.imports _ himport, hrecord.exports _ hexport⟩

theorem Syntax.ModuleItem.Recorded.later {item : ModuleItem} {file : FileId} {scope : ScopeId}
    (h : item.Recorded flow record file scope) : item.Recorded flow' record' file scope where
  imports source asked name hitem := (h.imports source asked name hitem).later hflow hrecord
  relays source specifier hitem := (h.relays source specifier hitem).later hflow hrecord

end

namespace Walk

variable {place : Place} {file : WalkedFile} {s : FileState}

/-- The names that an item imports are bound once it has been hoisted. -/
theorem lawfulAt_hoistItem (item : ModuleItem) :
    LawfulAt place file s (hoistItem item) fun u _ =>
      ∀ source asked name, item.Imports source asked name →
        ∃ x, u.flow.symbols.binding? place.scope name = some x := by
  -- Most items import nothing.
  have hnone : (∀ source asked name, ¬ item.Imports source asked name) →
      LawfulAt place file s (hoistItem item) fun u _ =>
        ∀ source asked name, item.Imports source asked name →
          ∃ x, u.flow.symbols.binding? place.scope name = some x := fun h =>
    .mono (.of_lawful (lawful_hoistItem item)) fun _ _ _ source asked name hitem =>
      absurd hitem (h source asked name)
  cases item with
  | importNames source specifiers =>
    refine .mono (.declare .importName (specifiers.map ImportSpecifier.localName))
      fun u _ hbound _ asked name hitem => ?_
    cases hitem with
    | names h hbinds =>
      have hlocal := List.mem_map_of_mem (f := ImportSpecifier.localName) h
      cases hbinds <;> exact hbound _ hlocal
  | importEquals name source =>
    refine .mono (.declare .importName [name]) fun u _ hbound _ asked _ hitem => ?_
    cases hitem with
    | equals => exact hbound name (List.mem_singleton_self name)
  | _ => exact hnone nofun

/-- A name that is passed on is asked for and exported at once. -/
theorem lawfulAt_relayName (source : String) (specifier : ExportSpecifier) :
    LawfulAt place file s (relayName source specifier) fun u _ =>
      u.record.PassesOn u.flow source specifier place.file := by
  intro hclosed hplace
  obtain ⟨hgrows, -⟩ := lawful_relayName source specifier place hclosed hplace
  have hrelay := FlowGraph.find?_intern_self s.flow.graph (.expr ⟨place.file, specifier.span⟩)
  exact ⟨hgrows, _, hrelay, Array.mem_push_self, Array.mem_push_self⟩

/-- What an item imports and passes on is recorded once it has been visited, if the names that it
imports are bound. -/
theorem lawfulAt_visitItem {item : ModuleItem}
    (hheld : ∀ piece ∈ item.parts, file.module.Holds piece)
    (hscope : ∃ scope, s.flow.scopes.scope? place.scope = some scope)
    (hbound : ∀ source asked name, item.Imports source asked name →
      ∃ x, s.flow.symbols.binding? place.scope name = some x) :
    LawfulAt place file s (visitItem item) fun u _ =>
      item.Recorded u.flow u.record place.file place.scope := by
  -- an import: its name is resolved to the variable that it is bound to
  have himport : ∀ (source asked name : String) (t : FileState), item.Imports source asked name →
      s.Grows file .none t →
        LawfulAt place file t (do Walk.addImport source (.ofName asked) (← resolve name)) fun u _ =>
          u.record.Binds u.flow source asked place.scope name := by
    intro source asked name t hitem ht
    obtain ⟨x, hx⟩ := hbound source asked name hitem
    have hx := ht.later.bindings _ _ _ hx
    have hscope := hscope.imp fun _ => ht.later.scopes _ _
    refine .bind (.resolve hscope hx) fun u hu target htarget _ _ => ?_
    exact ⟨.import source _ htarget trivial, x, target, hu.later.bindings _ _ _ hx, htarget,
      Array.mem_push_self⟩
  -- Of an item that neither imports nor passes on there is nothing to show.
  have hother : (∀ source asked name, ¬ item.Imports source asked name) →
      (∀ source specifier, ¬ item.Relays source specifier) →
        LawfulAt place file s (visitItem item) fun u _ =>
          item.Recorded u.flow u.record place.file place.scope := fun himports hrelays =>
    .mono (.of_lawful (lawful_visitItem item hheld)) fun _ _ _ =>
      ⟨fun _ _ _ hitem => absurd hitem (himports _ _ _),
        fun _ _ hitem => absurd hitem (hrelays _ _)⟩
  cases item with
  | importNames source specifiers =>
    -- A name for a whole module binds no name of that module.
    have hone : ∀ specifier ∈ specifiers, ∀ t, s.Grows file .none t →
        LawfulAt place file t (importName source specifier) fun u _ =>
          ∀ asked name, specifier.Binds asked name →
            u.record.Binds u.flow source asked place.scope name := by
      intro specifier hspecifier t ht
      cases specifier with
      | named asked name =>
        refine .mono (himport source asked name t (.names hspecifier (.named asked name)) ht) ?_
        rintro u _ hu _ _ ⟨⟩
        exact hu
      | default name =>
        refine .mono (himport source "default" name t (.names hspecifier (.default name)) ht) ?_
        rintro u _ hu _ _ ⟨⟩
        exact hu
      | namespaceObject name => exact .mono (.of_lawful (lawful_importName _ _)) nofun
    have hall := LawfulAt.forM
      (P := fun (specifier : ImportSpecifier) u => ∀ asked name, specifier.Binds asked name →
        u.record.Binds u.flow source asked place.scope name) hone
      fun specifier t u hgrows ht asked name hbinds =>
        (ht asked name hbinds).later hgrows.later hgrows.record_later
    refine .mono hall fun u _ hu => ⟨?_, nofun⟩
    rintro _ asked name (⟨hspecifier, hbinds⟩ | _)
    exact hu _ hspecifier asked name hbinds
  | importEquals name source =>
    cases source with
    | none => exact hother nofun nofun
    | some source =>
      refine .mono (himport source "default" name s (.equals source name) (.refl s))
        fun u _ hu => ⟨fun _ asked _ hitem => ?_, nofun⟩
      cases hitem with
      | equals => exact hu
  | exportNames source specifiers =>
    cases source with
    | none => exact hother nofun nofun
    | some source =>
      have hall : LawfulAt place file s (specifiers.forM (relayName source)) fun u _ =>
          ∀ specifier ∈ specifiers, u.record.PassesOn u.flow source specifier place.file :=
        .forM (P := fun specifier u => u.record.PassesOn u.flow source specifier place.file)
          (fun specifier _ t _ => lawfulAt_relayName source specifier)
          fun specifier t u hgrows ht => ht.later hgrows.later hgrows.record_later
      refine .mono hall fun u _ hu => ⟨nofun, ?_⟩
      rintro _ specifier ⟨hspecifier⟩
      exact hu specifier hspecifier
  | _ => exact hother nofun nofun

/-- All that the items of a module import and pass on is recorded. -/
theorem lawfulAt_visitModule (hscope : ∃ scope, s.flow.scopes.scope? place.scope = some scope) :
    LawfulAt place file s (visitModule file.module) fun u _ =>
      ∀ item ∈ file.module.items, item.Recorded u.flow u.record place.file place.scope := by
  -- Every item is hoisted first, so its names are bound when it is visited.
  have hhoisted : LawfulAt place file s (file.module.items.forM hoistItem) fun u _ =>
      ∀ item ∈ file.module.items, ∀ source asked name, item.Imports source asked name →
        ∃ x, u.flow.symbols.binding? place.scope name = some x :=
    .forM (P := fun (item : ModuleItem) u => ∀ source asked name, item.Imports source asked name →
        ∃ x, u.flow.symbols.binding? place.scope name = some x)
      (fun item _ t _ => lawfulAt_hoistItem item) fun item t u hgrows ht source asked name hitem =>
        (ht source asked name hitem).imp fun x => hgrows.later.bindings _ _ x
  refine .bind hhoisted fun t ht _ hbound => ?_
  have hvisited : ∀ item ∈ file.module.items, ∀ u, t.Grows file .none u →
      LawfulAt place file u (visitItem item) fun x _ =>
        item.Recorded x.flow x.record place.file place.scope := by
    intro item hitem u hu
    have hlater := (ht.trans hu).later
    refine lawfulAt_visitItem (fun piece hpiece => Module.holds_item hitem hpiece)
      (hscope.imp fun _ => hlater.scopes _ _) fun source asked name himports => ?_
    exact (hbound item hitem source asked name himports).imp fun x => hu.later.bindings _ _ x
  exact .forM
    (P := fun (item : ModuleItem) u => item.Recorded u.flow u.record place.file place.scope)
    hvisited fun item u x hgrows hu => hu.later hgrows.later hgrows.record_later

end Walk

namespace FlowState

/-- **The record of a file** has its path, and all that its items import and pass on. -/
theorem recorded_addFile {s : FlowState} (hclosed : s.symbols.Closed) (path : Path)
    (lines : LineTable) (m : Module) :
    (s.addFile path lines m).1.path = path ∧
      ∀ item ∈ m.items, item.Recorded (s.addFile path lines m).2 (s.addFile path lines m).1
        ⟨s.program.files.size⟩ ⟨s.scopes.size⟩ := by
  have hscope : ∃ scope, (s.opened path).flow.scopes.scope? (s.opening lines).scope = some scope :=
    ⟨_, Array.getElem?_push_size⟩
  have hwalk : Walk.LawfulAt (s.opening lines) (s.next lines m) (s.opened path) _ _ :=
    Walk.lawfulAt_visitModule hscope
  obtain ⟨hgrows, hrecorded⟩ := hwalk hclosed (opening_in s path lines m)
  rw [addFile_eq]
  exact ⟨hgrows.record_later.path, hrecorded⟩

end FlowState

end CallFlow
