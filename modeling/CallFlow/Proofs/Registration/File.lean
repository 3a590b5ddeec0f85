import CallFlow.Proofs.Registration.Visit
import CallFlow.SourceFile

/-!
# What a file adds to the program

A file registers the sites that the walk over its module visits. So a site is registered once,
unless it stands on the left side of a default whose value has a vertex: that side is bound to the
source and then to the default, and is walked both times.
-/

namespace CallFlow

open Syntax

/-! ## The visits of a module -/

/-- No function is around the items of a module. -/
theorem Syntax.ModuleItem.visits_eq (item : ModuleItem) :
    item.visits = Leg.visitsAll false item.legs := by
  cases item with
  | exportDefaultClass name c =>
    -- the declared name of the class takes its value only if there is one
    cases name <;> cases h : c.hasConstructor <;>
      simp [visits, legs, h, Leg.visitsAll, Leg.visits]
  -- an import holds no call, whatever it names
  | importEquals name source => cases source <;> rfl
  | exportNames source specifiers =>
    cases source <;> simp [visits, legs, Leg.visitsAll_eq, Leg.visits, List.flatMap_map]
  | _ =>
    simp [visits, legs, Leg.visitsAll_eq, Leg.visits, Piece.visits, List.flatMap_map]

/-- The items are walked one after the other, none of them inside a function. -/
theorem Walk.registers_visitModule (m : Module) : (visitModule m).Registers false m.visits := by
  refine ((course_visitModule m).registers false).congr ?_
  rw [Module.legs, Leg.visitsAll, Leg.visits, List.nil_append, Leg.visitsAll_eq, List.flatMap_assoc]
  refine congrArg (List.flatMap · m.items) (funext fun item => ?_)
  rw [item.visits_eq, Leg.visitsAll_eq]

/-- Every item is covered, since every piece of syntax in it is. -/
theorem Syntax.ModuleItem.covered (item : ModuleItem) : Covered item.visits item.sites := by
  cases item with
  | stmt s => exact s.covered false
  | exportDecl d => exact d.covered false
  | exportDefaultFunction _ f => exact f.covered true
  | exportDefaultClass _ c => exact c.covered false
  | exportDefaultExpr e | exportAssignment e => exact e.covered false
  | importNames _ _ | importEquals _ _ | exportNames _ _ | inert => exact .nil _

theorem Syntax.Module.covered (m : Module) : Covered m.visits m.sites := by
  unfold Module.visits Module.sites
  induction m.items with
  | nil => exact .nil _
  | cons item items ih => exact item.covered.append ih

/-- Sites that are listed by what they are. -/
theorem Syntax.Site.perm_functions_calls (sites : List Site) :
    ((sites.filterMap Site.functionSpan?).map Site.function ++
      (sites.filterMap Site.callSpan?).map fun call => Site.call call.1 call.2).Perm sites := by
  induction sites with
  | nil => exact .nil
  | cons site sites ih =>
    cases site with
    | function span => exact ih.cons _
    | call kind span => exact List.perm_middle.trans (ih.cons _)

/-! ## What is registered -/

/-- Where a list of entries reads as pairs with one first part, that is the first part of each. -/
theorem fst_eq_of_map_eq {α β γ : Type} {entries : List α} {f : α → β × γ} {b : β} {rest : List γ}
    (h : entries.map f = rest.map fun c => (b, c)) : ∀ a ∈ entries, (f a).1 = b := by
  intro a ha
  have hmem : f a ∈ entries.map f := List.mem_map_of_mem ha
  rw [h] at hmem
  obtain ⟨c, -, hc⟩ := List.mem_map.1 hmem
  exact (congrArg Prod.fst hc).symm

namespace FlowState

variable (state : FlowState) (path : Path) (lines : LineTable) (m : Module)

/-- The functions that a file adds, in the order of their numbers. -/
def addedFunctions : List Function :=
  (state.addFile path lines m).2.program.functions.toList.drop state.program.functions.size

/-- The calls that a file adds, in the order of their numbers. -/
def addedCalls : List CallSite :=
  (state.addFile path lines m).2.program.calls.toList.drop state.program.calls.size

/-- The sites of the entries that a file adds: its functions, then its calls. -/
def registered : List Site :=
  (state.addedFunctions path lines m).map (fun f => .function f.location.span) ++
    (state.addedCalls path lines m).map fun c => .call c.kind c.location.span

/-- A file adds what the walk over its module visits. -/
theorem gains_addFile :
    (state.program.addFile path).2.Gains ⟨state.program.files.size⟩ (m.visits.map Visit.site)
      (state.addFile path lines m).2.program := by
  rw [addFile_eq]
  exact Walk.registers_visitModule m (state.opening lines) (state.opened path) rfl

/-- The added functions are those that the walk visits, in its order and in the file itself. -/
theorem addedFunctions_eq :
    (state.addedFunctions path lines m).map (fun f => (f.file, f.location.span)) =
      ((m.visits.map Visit.site).filterMap Site.functionSpan?).map fun span =>
        ((⟨state.program.files.size⟩ : FileId), span) := by
  obtain ⟨added, hadded, hspans⟩ := (state.gains_addFile path lines m).functions
  unfold addedFunctions
  rw [hadded, ← hspans]
  exact congrArg _ List.drop_left

/-- The added calls are those that the walk visits, in its order and in the file itself. -/
theorem addedCalls_eq :
    (state.addedCalls path lines m).map (fun c => (c.file, c.kind, c.location.span)) =
      ((m.visits.map Visit.site).filterMap Site.callSpan?).map fun call =>
        ((⟨state.program.files.size⟩ : FileId), call) := by
  obtain ⟨added, hadded, hspans⟩ := (state.gains_addFile path lines m).calls
  unfold addedCalls
  rw [hadded, ← hspans]
  exact congrArg _ List.drop_left

/-- Functions and calls are kept apart in the program. Put together again they are what is visited.
-/
theorem registered_perm_visits :
    (state.registered path lines m).Perm (m.visits.map Visit.site) := by
  -- read both lists as sites, forgetting the file that they share
  have hfunctions := congrArg (List.map fun entry => Site.function entry.2)
    (state.addedFunctions_eq path lines m)
  have hcalls := congrArg (List.map fun entry => Site.call entry.2.1 entry.2.2)
    (state.addedCalls_eq path lines m)
  simp only [List.map_map, Function.comp_def] at hfunctions hcalls
  unfold registered
  rw [hfunctions, hcalls]
  exact Site.perm_functions_calls _

/-- What is registered is what is visited for the first time, and what a default repeats. -/
theorem registered_perm_firsts_repeats :
    (state.registered path lines m).Perm (firsts m.visits ++ repeats m.visits) :=
  (state.registered_perm_visits path lines m).trans (perm_firsts_repeats m.visits)

/-- A file registers some sites of its module once, in the order of the walk, and those again that
a default repeats. Where no two sites of the module are alike, no two registered ones are exactly
if no default repeats any. -/
theorem registered_once_iff :
    (∀ f ∈ state.addedFunctions path lines m, f.file = ⟨state.program.files.size⟩) ∧
    (∀ c ∈ state.addedCalls path lines m, c.file = ⟨state.program.files.size⟩) ∧
    (state.registered path lines m).Perm (firsts m.visits ++ repeats m.visits) ∧
    (firsts m.visits).Sublist m.sites ∧
    (∀ site ∈ repeats m.visits, site ∈ firsts m.visits) ∧
    (m.sites.Nodup →
      ((state.registered path lines m).Nodup ↔ repeats m.visits = [])) := by
  have hperm := state.registered_perm_firsts_repeats path lines m
  have hgrounded : ∀ site ∈ repeats m.visits, site ∈ firsts m.visits := m.covered.repeats_mem
  refine ⟨fst_eq_of_map_eq (state.addedFunctions_eq path lines m),
    fst_eq_of_map_eq (state.addedCalls_eq path lines m), hperm, m.covered.sublist, hgrounded,
    fun hsites => ?_⟩
  rw [hperm.nodup_iff, List.nodup_append]
  constructor
  · -- a repeated site is among the first ones too
    rintro ⟨-, -, hdisjoint⟩
    refine List.eq_nil_iff_forall_not_mem.2 fun site hsite => ?_
    exact hdisjoint site (hgrounded site hsite) site hsite rfl
  -- without repeats what is registered is a sublist of the sites
  · intro hnone
    rw [hnone]
    refine ⟨hsites.sublist m.covered.sublist, List.nodup_nil, fun _ _ _ h => ?_⟩
    exact absurd h List.not_mem_nil

/-- The left side of the default is bound to the parameter and to `o`, so `g()` is walked twice. -/
def defaultedParameterModule : Module where
  items := [.stmt (.decl (.function "f" (.mk [.pattern [] (.withDefault
    (.object [.shorthand "a" (some (.call false ⟨16, 19⟩ (.ident "g") []))])
    (.ident "o"))] (.block []) ⟨0, 28⟩)))]

/-- A parameter with a default, whose left side holds a call that is walked for the default again.
-/
def defaultedParameter : SourceFile where
  path := ⟨"a.js"⟩
  text := "function f(\x7ba = g()\x7d = o) \x7b\x7d"
  dialect := .javaScript
  reading := ⟨some defaultedParameterModule.items, []⟩

/-- The call in the left side is registered twice, although it stands in the file once. -/
theorem registered_defaultedParameter :
    defaultedParameterModule.sites.Nodup ∧
      ¬ (({} : FlowState).registered defaultedParameter.path defaultedParameter.lines
        defaultedParameterModule).Nodup := by
  have hsites : defaultedParameterModule.sites.Nodup := by decide +kernel
  refine ⟨hsites, fun hregistered => ?_⟩
  have hnone : repeats defaultedParameterModule.visits = [] :=
    ((registered_once_iff {} defaultedParameter.path defaultedParameter.lines
      defaultedParameterModule).2.2.2.2.2 hsites).1 hregistered
  have hsome : repeats defaultedParameterModule.visits ≠ [] := by decide +kernel
  exact hsome hnone

end FlowState

end CallFlow
