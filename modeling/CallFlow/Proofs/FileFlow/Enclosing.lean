import CallFlow.Proofs.FileFlow.Nesting
import CallFlow.Proofs.FileFlow.Results

/-!
# Enclosing functions

A routine goes back after each step, so that where it is depends on nothing but what is around:
only what is inside of a scope or a function is visited at another place. So the function that is
registered as the one around a function or a call is the innermost one whose parameters or body it
is written in.
-/

namespace CallFlow

open Syntax

namespace Routine

/-! ## What a visit registers -/

/-- The first free number is that of the function, and what is known of it then is never changed. -/
theorem function?_visitFunction (name own : Option String) (isArrow : Bool) (f : Func)
    (place : Place) (s : FileState) :
    (visitFunction name own isArrow f place s).2.flow.program.function?
      ⟨s.flow.program.functions.size⟩ = some {
        name, isArrow
        paramCount := f.params.countP Param.isSlotted
        file := place.file
        location := place.lines.location f.span
        enclosing := place.function } := by
  have hinside (id : FunctionId) : Walk.Traced true (Walk.walkInside id f) f.body.redeclared :=
    .step (Walk.traced_bindParams true id 1 f.params) fun _ => Walk.traced_visitBody true id f.body
  have hhead := (Walk.Traced.declareHead (Walk.entry name isArrow f place s).value own f).later
    (Walk.entry name isArrow f place s).place (Walk.entry name isArrow f place s).state
  rw [visitFunction_apply]
  refine (hhead.trans ((hinside _).later _ _)).functions _ _ ?_
  exact (Program.function?_addFunction _).trans (if_pos rfl)

/-- So it is with a call. -/
theorem call?_visit {e : Expr} {shape : CallShape} (hshape : e.callShape? = some shape)
    (role : Role) (place : Place) (s : FileState) :
    (visit role e place s).2.flow.program.call? ⟨s.flow.program.calls.size⟩ = some {
      kind := shape.kind
      argCount := shape.argCount
      file := place.file
      location := place.lines.location shape.span
      enclosing := place.function } := by
  obtain ⟨callee, hcalled⟩ := Expr.exists_called hshape
  obtain ⟨rest, hrest, hwalk⟩ := Walk.exists_visit_call hshape hcalled role
  have hafter (c : CallId) : Walk.Traced true (do
      let slot ← Walk.vertex (.callee c)
      let value ← Walk.visit .callee callee
      Walk.flow value.result slot
      rest c value.receiver) [] :=
    .step (.vertex rfl) fun slot => .step (Walk.traced_visit true .callee callee) fun value =>
      .step (.flow value.result slot) fun _ => (hrest c value.receiver).1
  rw [visit_eq, hwalk]
  refine ((hafter ⟨s.flow.program.calls.size⟩).later place _).calls _ _ ?_
  exact (Program.call?_addCall _).trans (if_pos rfl)

namespace Stops

variable {α : Type} {routine : Routine α} {place : Place} {s : FileState} {stops : List Stop}

/-- What is around a stop neither leaves the file nor the function that the routine is in, unless
it is in another function by then. -/
theorem place_fields (h : Stops routine place s stops) {x : Stop} (hx : x ∈ stops) :
    x.place.file = place.file ∧ x.place.lines = place.lines ∧
      x.place.function = x.enclosing.or place.function := by
  rw [h.place_eq x hx]
  refine ⟨?_, ?_, Frame.function_foldl_place x.within place⟩
  · induction x.within using List.reverseRecOn with
    | nil => rfl
    | append_singleton frames frame ih =>
      rw [List.foldl_concat]
      cases frame <;> exact ih
  · induction x.within using List.reverseRecOn with
    | nil => rfl
    | append_singleton frames frame ih =>
      rw [List.foldl_concat]
      cases frame <;> exact ih

/-- A function at which the routine stops is registered there. -/
theorem function? (h : Stops routine place s stops) {x : Stop} (hx : x ∈ stops) {f : Func}
    (hf : x.piece = .func f) :
    ∃ name isArrow, (routine place s).2.flow.program.function? x.function = some {
      name, isArrow
      paramCount := f.params.countP Param.isSlotted
      file := place.file
      location := place.lines.location f.span
      enclosing := x.place.function } := by
  obtain ⟨hfile, hlines, -⟩ := h.place_fields hx
  obtain ⟨-, β, r, hover, hlater⟩ := h.over_of_mem x hx
  rw [hf] at hover
  cases hover with
  | func name own isArrow f =>
    refine ⟨name, isArrow, hlater.functions _ _ ?_⟩
    rw [← hfile, ← hlines]
    exact function?_visitFunction name own isArrow f x.place x.state

/-- A call at which the routine stops is registered there. -/
theorem call? (h : Stops routine place s stops) {x : Stop} (hx : x ∈ stops) {e : Expr}
    (he : x.piece = .expr e) {shape : CallShape} (hshape : e.callShape? = some shape) :
    (routine place s).2.flow.program.call? x.call = some {
      kind := shape.kind
      argCount := shape.argCount
      file := place.file
      location := place.lines.location shape.span
      enclosing := x.place.function } := by
  obtain ⟨hfile, hlines, -⟩ := h.place_fields hx
  obtain ⟨-, β, r, hover, hlater⟩ := h.over_of_mem x hx
  rw [he] at hover
  cases hover with
  | expr role e =>
    refine hlater.calls _ _ ?_
    rw [← hfile, ← hlines]
    exact call?_visit hshape role x.place x.state

end Stops

end Routine

namespace FlowState

/-! ## The visit of a module -/

/-- The routine for the module of a file stops here, and so its functions and calls are registered
as the source nests. -/
structure NestedAs (state : FlowState) (path : Path) (lines : LineTable) (m : Module)
    (stops : List Stop) : Prop where
  /-- Of two steps that follow each other the second starts where the first one has ended. -/
  walked : (Routine.visitModule m).Stops (state.opening lines) (state.opened path) stops
  /-- The routine stops at the pieces of the module, inside of what is around them. -/
  pieces : ∀ cs q, (∃ x ∈ stops, x.crossings = cs ∧ x.piece = q) ↔ m.Reaches cs q
  /-- There the visit of the piece is started, and what it leaves stays. -/
  started : ∀ x ∈ stops, ∃ (α : Type) (routine : Routine α), Routine.Over x.piece routine ∧
    (routine x.place x.state).2.flow.Later (state.addFile path lines m).2
  /-- Its place is what is around, and nothing else. -/
  place : ∀ x ∈ stops, x.place = x.within.foldl Frame.place (state.opening lines)
  /-- A scope is inside of the one around it. -/
  scopes : ∀ x ∈ stops, ∀ outer frame rest, x.within = outer ++ frame :: rest →
    let around := outer.foldl Frame.place (state.opening lines)
    (state.addFile path lines m).2.scopes.scope? (frame.place around).scope =
      some ⟨frame.kind, some around.scope⟩
  /-- A function around is one that the routine has stopped at. -/
  entered : ∀ x ∈ stops, ∀ outer e rest, x.within = outer ++ .function e :: rest →
    ∃ y ∈ stops, y.piece = .func e.func ∧ y.within = outer ∧ y.function = e.id
  /-- A function is registered with the innermost one around, which has a smaller number. -/
  functions : ∀ x ∈ stops, ∀ f, x.piece = .func f → ∃ function,
    (state.addFile path lines m).2.program.function? x.function = some function ∧
      function.Reads ⟨⟨state.program.files.size⟩, lines, m⟩ f ∧
      function.enclosing = x.enclosing ∧ ∀ g ∈ x.enclosing, g.index < x.function.index
  /-- A call is registered with the innermost function around. -/
  calls : ∀ x ∈ stops, ∀ e shape, x.piece = .expr e → e.callShape? = some shape → ∃ site,
    (state.addFile path lines m).2.program.call? x.call = some site ∧
      site.Reads ⟨⟨state.program.files.size⟩, lines, m⟩ shape ∧ site.enclosing = x.enclosing
  /-- No other functions are registered. -/
  allFunctions : ∀ i, state.program.functions.size ≤ i →
    i < (state.addFile path lines m).2.program.functions.size →
      ∃ x ∈ stops, ∃ f, x.piece = .func f ∧ x.function = ⟨i⟩
  /-- No other calls are registered. -/
  allCalls : ∀ i, state.program.calls.size ≤ i →
    i < (state.addFile path lines m).2.program.calls.size →
      ∃ x ∈ stops, ∃ e shape, x.piece = .expr e ∧ e.callShape? = some shape ∧ x.call = ⟨i⟩

/-- A file nests as its source does. -/
theorem exists_nestedAs (state : FlowState) (path : Path) (lines : LineTable) (m : Module) :
    ∃ stops, state.NestedAs path lines m stops := by
  obtain ⟨stops, hwalk, hat⟩ :=
    Walk.stopsAt_visitModule m (state.opening lines) (state.opened path)
  have hstops : (Routine.visitModule m).Stops (state.opening lines) (state.opened path) stops :=
    Routine.visitModule_eq m ▸ hwalk.routine
  have henclosing {x : Stop} (hx : x ∈ stops) : x.place.function = x.enclosing :=
    (hstops.place_fields hx).2.2.trans (Option.or_none)
  refine ⟨stops, hstops, hat, fun x hx => (hstops.over_of_mem x hx).2, hstops.place_eq,
    hstops.scopes, fun x hx outer e rest hwithin => ?_, fun x hx f hf => ?_,
    fun x hx e shape he hshape => ?_, fun i => hstops.exists_function,
    fun i => hstops.exists_call⟩
  · obtain ⟨y, hy, hpiece, houter, hid, -⟩ := hstops.around x hx outer e rest hwithin
    exact ⟨y, hy, hpiece, houter, hid⟩
  · obtain ⟨name, isArrow, hfunction⟩ := hstops.function? hx hf
    refine ⟨_, hfunction, ⟨rfl, rfl, rfl⟩, henclosing hx, ?_⟩
    rw [← henclosing hx]
    exact hstops.known nofun x hx
  · exact ⟨_, hstops.call? hx he hshape, ⟨rfl, rfl, rfl, rfl⟩, henclosing hx⟩

/-- **Functions and calls are recorded as the source nests, and visits go back.** Whatever file is
added to whatever is known: each function and each call of it is registered with the innermost
function around. And whatever it is that is visited, wherever and in whatever state: the visit
ends in the scope and the function that it started in, and with the same receiver. -/
theorem nests_and_restores :
    (∀ (state : FlowState) (path : Path) (lines : LineTable) (m : Module),
      ∃ stops, state.NestedAs path lines m stops) ∧
    ∀ (p : Piece) (α : Type) (routine : Routine α), Routine.Over p routine →
      ∀ (place : Place) (s : FileState),
        let after := (routine place s).1.2
        after.scope = place.scope ∧ after.function = place.function ∧
          after.receiver = place.receiver ∧ after.file = place.file ∧
            after.lines = place.lines := by
  refine ⟨exists_nestedAs, fun p α routine hover place s => ?_⟩
  rw [hover.restores place s]
  exact ⟨rfl, rfl, rfl, rfl, rfl⟩

end FlowState

end CallFlow
