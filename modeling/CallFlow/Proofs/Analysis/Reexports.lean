import CallFlow.Proofs.Analysis.History
import CallFlow.Proofs.FileFlow.Items
import CallFlow.Proofs.Module.Exactness

/-!
# Names that are passed on

A module may pass on what another module exports, under another name, and so may further modules.
All records are linked one by one and only once; still what the first module exports reaches whoever
imports it from the last one, through the relays of the modules between them, in whatever order the
files have been built.
-/

namespace CallFlow

namespace History

/-! ## The modules that are built -/

/-- A module with the numbers of its file, its record and its module scope. -/
structure BuiltModule where
  path : Path
  module : Syntax.Module
  file : FileId
  record : ℕ
  scope : ScopeId

/-- The module of a file that is built next. -/
def module? (h : History) : Build → Option BuiltModule
  | .file path _ m => some {
      path
      module := m
      file := ⟨h.flow.program.files.size⟩
      record := h.records.size
      scope := ⟨h.flow.scopes.size⟩ }
  | .seed | .link _ => none

/-- The modules that are built from here on. -/
def modulesFrom (h : History) : List Build → List BuiltModule
  | [] => []
  | what :: whats => (h.module? what).toList ++ (h.build what).modulesFrom whats

/-- The modules that are built, one for each file. -/
def modules (whats : List Build) : List BuiltModule := modulesFrom {} whats

/-- A specifier in this file leads to the record of the module. -/
def LeadsTo (h : History) (path : Path) (specifier : String) (M : BuiltModule) : Prop :=
  Module.resolve (Linking.knownFiles h.records) path specifier = some M.record

/-- The module exports the value under a name: it is in its own record, or the module passes it on
from another one through a relay. The relays are listed in their order. -/
inductive Offers (whats : List Build) (value : Vertex) : BuiltModule → String → List Vertex → Prop
  | exports {M : BuiltModule} {record : ModuleRecord} {e : ExportBinding}
      (hM : M ∈ modules whats)
      (hrecord : (after (whats.map .build)).records[M.record]? = some record)
      (he : e ∈ record.exports)
      (hvalue : (after (whats.map .build)).flow.graph.find? value = some e.value) :
      Offers whats value M e.name []
  | relays {M N : BuiltModule} {relays : List Vertex} {item : Syntax.ModuleItem} {source : String}
      {specifier : Syntax.ExportSpecifier}
      (hM : Offers whats value M specifier.given relays)
      (hN : N ∈ modules whats) (hitem : item ∈ N.module.items)
      (hrelay : item.Relays source specifier)
      (hleads : (after (whats.map .build)).LeadsTo N.path source M) :
      Offers whats value N specifier.exported (relays ++ [.expr ⟨N.file, specifier.span⟩])

/-! ## What later builds keep -/

variable {h : History}

/-- A record that is there keeps its number. -/
theorem getElem?_records_build {k : ℕ} {record : ModuleRecord} (hk : h.records[k]? = some record)
    (what : Build) : (h.build what).records[k]? = some record := by
  cases what with
  | seed | link _ =>
    rw [History.build, records_withGraph]
    exact hk
  | file path lines m =>
    have hlt : k < h.records.size := (Array.getElem?_eq_some_iff.1 hk).1
    exact (Array.getElem?_push_lt hlt).trans ((Array.getElem?_eq_getElem hlt).symm.trans hk)

/-- Whatever is built afterwards, records and what the flow state has stay. -/
theorem later_foldl (hvalid : h.Valid) (whats : List Build) :
    h.flow.Later (whats.foldl build h).flow ∧
      ∀ (k : ℕ) (record : ModuleRecord), h.records[k]? = some record →
        (whats.foldl build h).records[k]? = some record := by
  induction whats generalizing h with
  | nil => exact ⟨.refl h.flow, fun _ _ => id⟩
  | cons what whats ih =>
    obtain ⟨hlater, hrecords⟩ := ih (hvalid.build what)
    exact ⟨(hvalid.later_build what).trans hlater,
      fun k record hk => hrecords k record (getElem?_records_build hk what)⟩

/-- The record of a module that is built is there at the end, with all that its items import and
pass on. -/
theorem recorded_modulesFrom (hvalid : h.Valid) {whats : List Build} {M : BuiltModule}
    (hM : M ∈ h.modulesFrom whats) :
    ∃ record, (whats.foldl build h).records[M.record]? = some record ∧ record.path = M.path ∧
      ∀ item ∈ M.module.items,
        item.Recorded (whats.foldl build h).flow record M.file M.scope := by
  induction whats generalizing h with
  | nil => cases hM
  | cons what whats ih =>
    rw [modulesFrom] at hM
    rw [List.foldl_cons]
    have hvalid' := hvalid.build what
    -- the module is the one that is built now, or it comes later
    rcases List.mem_append.1 hM with hM | hM
    · cases what with
      | seed | link _ => cases hM
      | file path lines m =>
        obtain rfl := List.mem_singleton.1 hM
        obtain ⟨hpath, hitems⟩ := FlowState.recorded_addFile hvalid.closed path lines m
        obtain ⟨hlater, hrecords⟩ := later_foldl hvalid' whats
        -- the record of a file goes behind those that are there
        have hnew : (h.build (.file path lines m)).records[h.records.size]? =
            some (h.flow.addFile path lines m).1 := Array.getElem?_push_size
        exact ⟨_, hrecords _ _ hnew, hpath, fun item hitem =>
          (hitems item hitem).later hlater (.refl _)⟩
    · exact ih hvalid' hM

/-- What the items of a module say is recorded, in the record with its number. -/
theorem recorded_modules {whats : List Build} {M : BuiltModule} (hM : M ∈ modules whats) :
    ∃ record, (after (whats.map .build)).records[M.record]? = some record ∧ record.path = M.path ∧
      ∀ item ∈ M.module.items,
        item.Recorded (after (whats.map .build)).flow record M.file M.scope := by
  rw [after_map_build]
  exact recorded_modulesFrom valid_start hM

/-! ## One reference -/

/-- An import of a name flows into its target. -/
theorem receives_ofName {graph : FlowGraph} {source name : String} {target : VertexId} {v : Vertex}
    (hv : graph.find? v = some target) :
    (⟨source, .ofName name, target⟩ : ImportBinding).Receives graph name v := by
  by_cases hdefault : name = "default"
  · subst hdefault
    exact ⟨rfl, hv⟩
  · rw [ImportBinding.Receives, ImportedName.ofName, if_neg hdefault]
    exact ⟨rfl, hv⟩

/-- All records linked. -/
def linkedGraph (h : History) : FlowGraph := (Linking.run h.flow.graph h.records).graph

/-- What a module exports is joined with what an import of it receives. -/
theorem joined_of_leadsTo (hvalid : h.Valid) {M : BuiltModule} {record target : ModuleRecord}
    {e : ExportBinding} {source : String} {id : VertexId} {a b : Vertex}
    (htarget : h.records[M.record]? = some target) (he : e ∈ target.exports)
    (ha : h.flow.graph.find? a = some e.value) (hrecord : record ∈ h.records)
    (hleads : h.LeadsTo record.path source M)
    (himport : ⟨source, .ofName e.name, id⟩ ∈ record.imports)
    (hb : h.flow.graph.find? b = some id) :
    a = b ∨ (a, b) ∈ h.linkedGraph.edgeSet := by
  have hin : ∀ record ∈ h.records, record.In h.flow.graph := fun record hrecord => by
    obtain ⟨view, hdenotes, -⟩ := hvalid.records record hrecord
    exact hdenotes.isIn
  -- the specifier leads to the record that has the export
  have hresolved : Linking.target? h.records record.path source = some target := by
    rw [Linking.target?, show Module.resolve _ _ _ = some M.record from hleads]
    exact htarget
  have hjoins : Linking.Joins h.flow.graph h.records a b :=
    ⟨record, hrecord, e.name, Or.inl ⟨_, himport, ⟨target, hresolved, e, he, rfl, ha⟩,
      receives_ofName hb⟩⟩
  -- where both are one vertex there is no edge, and none is needed
  by_cases hne : a = b
  · exact Or.inl hne
  · exact Or.inr ((Linking.mem_edgeSet_run hin).2 (Or.inr ⟨hjoins, hne⟩))

/-! ## Chains of references -/

/-- A chain goes on from its last vertex. -/
theorem isChain_concat {R : Vertex → Vertex → Prop} {path : List Vertex} {last next : Vertex}
    (h : path.IsChain R) (hlast : path.getLast? = some last) (hnext : R last next) :
    (path ++ [next]).IsChain R := by
  rw [List.isChain_append]
  refine ⟨h, List.isChain_singleton next, fun a ha b hb => ?_⟩
  rw [hlast, Option.mem_some_iff] at ha
  rw [List.head?_cons, Option.mem_some_iff] at hb
  rwa [← ha, ← hb]

/-- The value reaches the last of its relays, which the module exports. -/
theorem Offers.reaches {whats : List Build} {value : Vertex} {M : BuiltModule} {name : String}
    {relays : List Vertex} (hoffers : Offers whats value M name relays) :
    let h := after (whats.map .build)
    (∃ target e last, h.records[M.record]? = some target ∧ e ∈ target.exports ∧ e.name = name ∧
      h.flow.graph.find? last = some e.value ∧ (value :: relays).getLast? = some last) ∧
    (value :: relays).IsChain fun a b => a = b ∨ (a, b) ∈ h.linkedGraph.edgeSet := by
  intro h
  have hvalid : h.Valid := valid_after _
  -- the induction is along the relays, and the last of them is what the module exports under the
  -- name
  induction hoffers with
  | «exports» hM hrecord he hvalue =>
    exact ⟨⟨_, _, value, hrecord, he, rfl, hvalue, rfl⟩, List.isChain_singleton value⟩
  | @relays M N relays item source specifier hM hN hitem hrelay hleads ih =>
    obtain ⟨⟨target, e, last, htarget, he, hname, hlast, hend⟩, hchain⟩ := ih
    obtain ⟨record, hrecord, hpath, hitems⟩ := recorded_modules hN
    obtain ⟨relay, hfound, himport, hexport⟩ := (hitems item hitem).relays source specifier hrelay
    -- the relay imports what the module before it exports
    have hstep : last = .expr ⟨N.file, specifier.span⟩ ∨
        (last, .expr ⟨N.file, specifier.span⟩) ∈ h.linkedGraph.edgeSet := by
      rw [← hname] at himport
      rw [← hpath] at hleads
      exact joined_of_leadsTo hvalid htarget he hlast (Array.mem_of_getElem? hrecord) hleads
        himport hfound
    refine ⟨⟨record, _, _, hrecord, hexport, rfl, hfound, ?_⟩, ?_⟩
    · rw [← List.cons_append, List.getLast?_concat]
    · exact isChain_concat hchain hend hstep

/-- **Names that are passed on keep their value.** However many modules pass a value on, under
whatever names, and in whatever order they are built: once all records have been linked, the value
reaches the name that a module binds to the last of these names, through the relays alone. -/
theorem passed_on_reaches (whats : List Build) {value : Vertex} {M N : BuiltModule}
    {asked name source : String} {relays : List Vertex} {item : Syntax.ModuleItem}
    (hoffers : Offers whats value M asked relays) (hN : N ∈ modules whats)
    (hitem : item ∈ N.module.items) (himports : item.Imports source asked name)
    (hleads : (after (whats.map .build)).LeadsTo N.path source M) :
    let h := after (whats.map .build)
    ∃ x, h.flow.symbols.binding? N.scope name = some x ∧
      (value :: (relays ++ [.var x])).IsChain fun a b =>
        a = b ∨ (a, b) ∈ (Linking.run h.flow.graph h.records).graph.edgeSet := by
  intro h
  have hvalid : h.Valid := valid_after _
  obtain ⟨⟨target, e, last, htarget, he, hname, hlast, hend⟩, hchain⟩ := hoffers.reaches
  obtain ⟨record, hrecord, hpath, hitems⟩ := recorded_modules hN
  obtain ⟨x, id, hx, hid, himport⟩ := (hitems item hitem).imports source asked name himports
  -- the importing module is one step more, and the variable its end
  have hstep : last = .var x ∨ (last, .var x) ∈ h.linkedGraph.edgeSet := by
    rw [← hname] at himport
    rw [← hpath] at hleads
    exact joined_of_leadsTo hvalid htarget he hlast (Array.mem_of_getElem? hrecord) hleads himport
      hid
  exact ⟨x, hx, isChain_concat hchain hend hstep⟩

/-! ### Three files -/

/-- `import g from './b'` -/
def importing : Syntax.Module := ⟨[.importNames "./b" [.default "g"]]⟩

/-- `export { f as default } from './a'` -/
def passing : Syntax.Module := ⟨[.exportNames (some "./a") [⟨⟨9, 21⟩, "f", "default"⟩]]⟩

/-- `export function f() {}` -/
def exporting : Syntax.Module := ⟨[.exportDecl (.function "f" (.mk [] (.block []) ⟨7, 22⟩))]⟩

/-- The importing file comes first. -/
def passedOn : List Build :=
  [.file ⟨"c.js"⟩ (.ofText "") importing, .file ⟨"b.js"⟩ (.ofText "") passing,
    .file ⟨"a.js"⟩ (.ofText "") exporting]

/-- Their modules have these numbers. -/
def importer : BuiltModule := ⟨⟨"c.js"⟩, importing, ⟨0⟩, 0, ⟨1⟩⟩

/-- The module in between, which passes the name on. -/
def relay : BuiltModule := ⟨⟨"b.js"⟩, passing, ⟨1⟩, 1, ⟨2⟩⟩

/-- The module that exports the name in the first place. -/
def exporter : BuiltModule := ⟨⟨"a.js"⟩, exporting, ⟨2⟩, 2, ⟨3⟩⟩

/-- The function of the last file reaches the name in the first one. -/
theorem passed_on_reaches_example :
    let h := after (passedOn.map .build)
    Offers passedOn (.var ⟨1⟩) relay "default" [.expr ⟨⟨1⟩, ⟨9, 21⟩⟩] ∧
      importer ∈ modules passedOn ∧ h.LeadsTo importer.path "./b" relay ∧
        ∃ x, h.flow.symbols.binding? importer.scope "g" = some x ∧
          [.var ⟨1⟩, .expr ⟨⟨1⟩, ⟨9, 21⟩⟩, .var x].IsChain fun a b =>
            a = b ∨ (a, b) ∈ (Linking.run h.flow.graph h.records).graph.edgeSet := by
  have hmodules : modules passedOn = [importer, relay, exporter] := rfl
  have hin : ∀ M ∈ [importer, relay, exporter], M ∈ modules passedOn := by
    rw [hmodules]
    exact fun _ => id
  have hleads : (after (passedOn.map .build)).LeadsTo importer.path "./b" relay :=
    show Module.resolve _ _ _ = _ by decide +kernel
  -- the function is exported through the name that it is declared under
  have hexport : ((after (passedOn.map .build)).records[exporter.record]?.bind
      fun record => record.exports[0]?).bind
        (fun e => ((after (passedOn.map .build)).flow.graph.vertex? e.value).map
          fun v => (e.name, v)) = some ("f", .var ⟨1⟩) := by
    decide +kernel
  obtain ⟨e, he, hvertex⟩ := Option.bind_eq_some_iff.1 hexport
  obtain ⟨record, hrecord, he⟩ := Option.bind_eq_some_iff.1 he
  obtain ⟨v, hv, heq⟩ := Option.map_eq_some_iff.1 hvertex
  obtain ⟨hname, rfl⟩ := Prod.mk.inj heq
  have hoffers : Offers passedOn (.var ⟨1⟩) exporter "f" [] := by
    rw [← hname]
    exact .exports (hin _ (by simp)) hrecord (Array.mem_of_getElem? he)
      ((FlowGraph.find?_eq_some_iff _ _ _).2 hv)
  have hfrom : (after (passedOn.map .build)).LeadsTo relay.path "./a" exporter :=
    show Module.resolve _ _ _ = _ by decide +kernel
  have hpassed : Offers passedOn (.var ⟨1⟩) relay "default" [.expr ⟨⟨1⟩, ⟨9, 21⟩⟩] :=
    .relays (N := relay) hoffers (hin _ (by simp)) List.mem_cons_self (.mk List.mem_cons_self)
      hfrom
  exact ⟨hpassed, hin _ (by simp), hleads,
    passed_on_reaches passedOn hpassed (hin _ (by simp)) List.mem_cons_self
      (.names List.mem_cons_self (.default "g")) hleads⟩

end History

end CallFlow
