import CallFlow.Proofs.FileFlow.Hoisting
import CallFlow.Proofs.Registration.Walk

/-!
# The stops of a routine

A routine stops at a piece of syntax when the visit of this piece is started. `Routine.Stops`
lists the stops in their order, each with its place, with the state by then, and with the scopes
and functions that the routine is inside of there. A step starts at the place that the step before
it has left, wherever that is. No step that registers a function or a call can be left out. So
what holds at every stop holds wherever something is registered, and it is shown by induction on
the steps. The first thing to show is that each step goes back to where it started.

`Walk.Stops` is the same for walks, which cannot go anywhere else.
-/

namespace CallFlow

open Syntax

/-! ## What a stop is inside of -/

/-- A function that has been entered: its number, and the scope for its names. -/
structure EnteredFunction where
  func : Func
  isArrow : Bool
  id : FunctionId
  scope : ScopeId

/-- What a walk is inside of. -/
inductive Frame
  | scope (kind : ScopeKind) (id : ScopeId)
  | function (entered : EnteredFunction)

namespace Frame

/-- The function that is entered there, if it is one. -/
def entered? : Frame → Option EnteredFunction
  | scope _ _ => none
  | function entered => some entered

/-- What the syntax has around. -/
def crossing : Frame → Crossing
  | scope kind _ => .scope kind
  | function entered => .function entered.func entered.isArrow

/-- The kind of the scope that is opened there. -/
def kind : Frame → ScopeKind
  | scope kind _ => kind
  | function entered => Walk.functionKind entered.isArrow

/-- The place inside of this frame, from the place around it. -/
def place (place : Place) : Frame → Place
  | scope _ id => { place with scope := id }
  | function entered => { place with
      scope := entered.scope
      function := some entered.id
      receiver := if entered.isArrow then place.receiver else some entered.id }

end Frame

/-- A piece that the walk comes to, where, with the state by then, and what it is inside of, the
outermost first. -/
structure Stop where
  piece : Piece
  place : Place
  state : FileState
  within : List Frame := []

namespace Stop

/-- The stop as seen from outside of a frame. -/
def inside (frame : Frame) (x : Stop) : Stop :=
  { x with within := frame :: x.within }

variable (x : Stop)

/-- The functions around, the outermost first. -/
def entered : List EnteredFunction := x.within.filterMap Frame.entered?

/-- What is crossed on the way to the stop. -/
def crossings : List Crossing := x.within.map Frame.crossing

/-- The number of the innermost function around. -/
def enclosing : Option FunctionId := x.entered.getLast?.map EnteredFunction.id

/-- The number of the innermost function around that has a receiver of its own. -/
def receiving : Option FunctionId :=
  (x.entered.reverse.find? fun e => !e.isArrow).map EnteredFunction.id

/-- The scope of the innermost function around, or the `outermost` one if there is none. -/
def bodyScope (outermost : ScopeId) : ScopeId :=
  (x.entered.getLast?.map EnteredFunction.scope).getD outermost

/-- The number of the function, if the walk stops at one. -/
def function : FunctionId := ⟨x.state.flow.program.functions.size⟩

/-- The number of the call, if the walk stops at one. -/
def call : CallId := ⟨x.state.flow.program.calls.size⟩

theorem bodyScope_function (e : EnteredFunction) (outermost : ScopeId) :
    (x.inside (.function e)).bodyScope outermost = x.bodyScope e.scope := by
  have hentered : (x.inside (.function e)).entered = e :: x.entered := rfl
  rw [bodyScope, bodyScope, hentered, List.getLast?_cons]
  cases x.entered.getLast? <;> rfl

end Stop

/-! ### Places -/

namespace Frame

/-- The function around is the innermost one that has been entered. -/
theorem function_foldl_place (frames : List Frame) (start : Place) :
    (frames.foldl place start).function =
      ((frames.filterMap entered?).getLast?.map EnteredFunction.id).or start.function := by
  induction frames using List.reverseRecOn with
  | nil => rfl
  | append_singleton frames frame ih =>
    rw [List.foldl_concat, List.filterMap_append]
    cases frame with
    | scope kind id => simpa [place, entered?] using ih
    | function e => simp [place, entered?]

/-- The receiver is that of the innermost function that is no arrow. -/
theorem receiver_foldl_place (frames : List Frame) (start : Place) :
    (frames.foldl place start).receiver =
      (((frames.filterMap entered?).reverse.find? fun e => !e.isArrow).map
        EnteredFunction.id).or start.receiver := by
  induction frames using List.reverseRecOn with
  | nil => rfl
  | append_singleton frames frame ih =>
    rw [List.foldl_concat, List.filterMap_append, List.reverse_append]
    cases frame with
    | scope kind id => exact ih
    | function e =>
      have hlast : ([function e].filterMap entered?).reverse = [e] := rfl
      rw [hlast, List.singleton_append, List.find?_cons]
      cases harrow : e.isArrow with
      | true => simpa [place, harrow] using ih
      | false => simp [place, harrow]

end Frame

theorem FlowState.Later.size_functions_le {s t : FlowState} (h : s.Later t) :
    s.program.functions.size ≤ t.program.functions.size := by
  by_contra hlt
  rw [not_le] at hlt
  have hfound := h.functions ⟨t.program.functions.size⟩ _ (Array.getElem?_eq_getElem hlt)
  exact absurd (Array.getElem?_eq_some_iff.1 hfound).1 (Nat.lt_irrefl _)

namespace Routine

/-! ## Stops -/

/-- This is a visit of the piece. -/
inductive Over : Piece → {α : Type} → Routine α → Prop
  | expr (role : Role) (e : Expr) : Over (.expr e) (visit role e)
  | pattern (p : Pattern) (source : Option VertexId) : Over (.pattern p) (bind p source)
  | stmt (s : Stmt) : Over (.stmt s) (visitStmt s)
  | «class» (name own : Option String) (c : Syntax.Class) : Over (.class c) (visitClass name own c)
  | block (stmts : List Stmt) :
      Over (.member (.staticBlock stmts)) (visitMember (.staticBlock stmts))
  | func (name own : Option String) (isArrow : Bool) (f : Func) :
      Over (.func f) (visitFunction name own isArrow f)

/-- **Visits go back.** Whatever it is that is visited, wherever and in whatever state: the visit
ends in the scope and the function that it started in, and with the same receiver. -/
theorem Over.restores {p : Piece} {α : Type} {routine : Routine α} (h : Over p routine) :
    routine.Restores := by
  cases h with
  | expr role e => exact visit_eq role e ▸ restores_lift _
  | pattern p source => exact bind_eq p source ▸ restores_lift _
  | stmt s => exact visitStmt_eq s ▸ restores_lift _
  | «class» name own c => exact visitClass_eq name own c ▸ restores_lift _
  | block stmts => exact visitMember_eq (.staticBlock stmts) ▸ restores_lift _
  | func name own isArrow f => exact visitFunction_eq name own isArrow f ▸ restores_lift _

/-- All that is done in a function that has been entered. -/
def visitInside (e : Walk.Entry) (own : Option String) (f : Func) : Routine Unit := do
  Walk.declareHead e.value own f
  bindParams e.id 1 f.params
  visitBody e.id f.body

theorem visitInside_eq (e : Walk.Entry) (own : Option String) (f : Func) :
    visitInside e own f = liftM (do
      Walk.declareHead e.value own f
      Walk.walkInside e.id f : Walk Unit) := by
  rw [visitInside, bindParams_eq, visitBody_eq]
  rfl

/-- A function is entered, and left for the place where it was met. -/
theorem visitFunction_inside (name own : Option String) (isArrow : Bool) (f : Func) (place : Place)
    (s : FileState) :
    let e := Walk.entry name isArrow f place s
    visitFunction name own isArrow f place s =
      ((e.id, place), (visitInside e own f e.place e.state).2) := by
  intro e
  rw [visitFunction_apply, visitInside_eq]
  rfl

/-- A routine that goes back, only grows the state, and registers nothing. -/
structure Still {α : Type} (routine : Routine α) : Prop where
  restores : routine.Restores
  silent : ∀ (place : Place) (s : FileState), (routine place s).2.flow.program = s.flow.program
  later : ∀ (place : Place) (s : FileState), s.flow.Later (routine place s).2.flow

/-- The stops of a routine that starts at this place in this state. -/
inductive Stops : {α : Type} → Routine α → Place → FileState → List Stop → Prop
  | still {α : Type} {routine : Routine α} (h : Still routine) (place : Place) (s : FileState) :
      Stops routine place s []
  | bind {α β : Type} {routine : Routine α} {next : α → Routine β} {place : Place} {s : FileState}
      {stops stops' : List Stop} (h : Stops routine place s stops)
      (h' : Stops (next (routine place s).1.1) (routine place s).1.2 (routine place s).2 stops') :
      Stops (routine >>= next) place s (stops ++ stops')
  | inScope {α : Type} {routine : Routine α} {kind : ScopeKind} (hkind : kind.hoistsVars = false)
      {place : Place} {s : FileState} {stops : List Stop}
      (h : Stops routine { place with scope := ⟨s.flow.scopes.size⟩ }
        (s.createScope kind place.scope) stops) :
      Stops (do
          let scope ← enterScope kind
          let value ← routine
          setScope scope
          return value) place s
        (stops.map (Stop.inside (.scope kind ⟨s.flow.scopes.size⟩)))
  | here {α : Type} {piece : Piece} {routine : Routine α} (hover : Over piece routine)
      (hfunc : piece.isFunc = false) {place : Place} {s : FileState} {stops : List Stop}
      (h : Stops routine place s stops) :
      Stops routine place s ({ piece, place, state := s } :: stops)
  | call {role : Role} {e : Expr} {shape : CallShape} (hshape : e.callShape? = some shape)
      {next : CallId → Routine Evaluated}
      (hroutine : visit role e =
        liftM (Walk.addCall shape.kind shape.argCount shape.span) >>= next)
      {place : Place} {s : FileState} {stops : List Stop}
      (h : Stops (next ⟨s.flow.program.calls.size⟩) place
        (Walk.addCall shape.kind shape.argCount shape.span place s).2 stops) :
      Stops (visit role e) place s ({ piece := .expr e, place, state := s } :: stops)
  | function {name own : Option String} {isArrow : Bool} {f : Func} {place : Place}
      {s : FileState} {stops : List Stop}
      (h : Stops (visitInside (Walk.entry name isArrow f place s) own f)
        (Walk.entry name isArrow f place s).place (Walk.entry name isArrow f place s).state stops) :
      Stops (visitFunction name own isArrow f) place s
        ({ piece := .func f, place, state := s } :: stops.map (Stop.inside (.function
          ⟨f, isArrow, ⟨s.flow.program.functions.size⟩, ⟨s.flow.scopes.size⟩⟩)))

namespace Stops

variable {α : Type} {routine : Routine α} {place : Place} {s : FileState} {stops : List Stop}

/-- Each step goes back to where it started. -/
theorem restores (h : Stops routine place s stops) : (routine place s).1.2 = place := by
  induction h with
  | still h place s => exact h.restores place s
  | bind _ _ ih ih' => exact ih'.trans ih
  | @inScope _ routine kind _ place s _ _ ih =>
    exact congrArg (fun p : Place => { p with scope := place.scope }) ih
  | here _ _ _ ih => exact ih
  | call _ hroutine _ ih =>
    rw [hroutine]
    exact ih
  | @function name own isArrow f place s _ _ _ => rw [visitFunction_inside]

/-- Nothing is taken away. -/
theorem later (h : Stops routine place s stops) : s.flow.Later (routine place s).2.flow := by
  induction h with
  | still h place s => exact h.later place s
  | bind _ _ ih ih' => exact ih.trans ih'
  | @inScope _ _ kind _ place s _ _ ih => exact .trans (.createScope s kind place.scope) ih
  | here _ _ _ ih => exact ih
  | @call role e shape _ next hroutine place s _ _ ih =>
    rw [hroutine]
    exact .trans (.addCall s _) ih
  | @function name own isArrow f place s _ _ ih =>
    rw [visitFunction_inside]
    exact (Walk.continues_entry name isArrow f place s).later.trans ih

/-- What the routine is inside of says where it is. -/
theorem place_eq (h : Stops routine place s stops) :
    ∀ x ∈ stops, x.place = x.within.foldl Frame.place place := by
  induction h with
  | still => exact List.forall_mem_nil _
  | bind h _ ih ih' =>
    rw [h.restores] at ih'
    exact List.forall_mem_append.2 ⟨ih, ih'⟩
  | inScope _ _ ih => exact List.forall_mem_map.2 ih
  | here _ _ _ ih | call _ _ _ ih => exact List.forall_mem_cons.2 ⟨rfl, ih⟩
  | function _ ih => exact List.forall_mem_cons.2 ⟨rfl, List.forall_mem_map.2 ih⟩

/-- At each stop the visit of the piece is started, and all that it leaves is there at the end. -/
theorem over_of_mem (h : Stops routine place s stops) :
    ∀ x ∈ stops, s.flow.Later x.state.flow ∧ ∃ (β : Type) (r : Routine β), Over x.piece r ∧
      (r x.place x.state).2.flow.Later (routine place s).2.flow := by
  induction h with
  | still => exact List.forall_mem_nil _
  | bind h h' ih ih' =>
    refine List.forall_mem_append.2 ⟨fun x hx => ?_, fun x hx => ?_⟩
    · obtain ⟨hbefore, β, r, hover, hafter⟩ := ih x hx
      exact ⟨hbefore, β, r, hover, hafter.trans h'.later⟩
    · obtain ⟨hbefore, hrest⟩ := ih' x hx
      exact ⟨h.later.trans hbefore, hrest⟩
  | @inScope _ _ kind _ place s _ _ ih =>
    exact List.forall_mem_map.2 fun x hx =>
      ⟨.trans (.createScope s kind place.scope) (ih x hx).1, (ih x hx).2⟩
  | here hover _ _ ih =>
    exact List.forall_mem_cons.2 ⟨⟨.refl _, _, _, hover, .refl _⟩, ih⟩
  | @call role e shape _ next hroutine place s _ _ ih =>
    refine List.forall_mem_cons.2 ⟨⟨.refl _, _, _, .expr role e, .refl _⟩, fun x hx => ?_⟩
    rw [hroutine]
    exact ⟨.trans (.addCall s _) (ih x hx).1, (ih x hx).2⟩
  | @function name own isArrow f place s _ _ ih =>
    refine List.forall_mem_cons.2 ⟨⟨.refl _, _, _, .func name own isArrow f, .refl _⟩, ?_⟩
    refine List.forall_mem_map.2 fun x hx => ?_
    -- A function is entered in a later state, and stops inside of it come later still.
    rw [visitFunction_inside]
    exact ⟨(Walk.continues_entry name isArrow f place s).later.trans (ih x hx).1, (ih x hx).2⟩

/-- The functions around a stop are those that the walk has stopped at before, when it was inside of
the same. -/
theorem around (h : Stops routine place s stops) :
    ∀ x ∈ stops, ∀ outer e rest, x.within = outer ++ .function e :: rest →
      ∃ y ∈ stops, y.piece = .func e.func ∧ y.within = outer ∧ y.function = e.id ∧
        e.scope = ⟨y.state.flow.scopes.size⟩ := by
  have hnil {outer rest : List Frame} {e : EnteredFunction} :
      ([] : List Frame) ≠ outer ++ .function e :: rest := by simp
  -- a frame that is opened is the first one
  have hinside {stops : List Stop} {frame : Frame}
      (ih : ∀ x ∈ stops, ∀ outer e rest, x.within = outer ++ .function e :: rest →
        ∃ y ∈ stops, y.piece = .func e.func ∧ y.within = outer ∧ y.function = e.id ∧
          e.scope = ⟨y.state.flow.scopes.size⟩)
    {x : Stop} (hx : x ∈ stops) {outer rest : List Frame}
      {e : EnteredFunction} (hwithin : frame :: x.within = outer ++ .function e :: rest) :
      (outer = [] ∧ frame = .function e) ∨
        ∃ y ∈ stops.map (Stop.inside frame), y.piece = .func e.func ∧ y.within = outer ∧
          y.function = e.id ∧ e.scope = ⟨y.state.flow.scopes.size⟩ := by
    cases outer with
    | nil => exact .inl ⟨rfl, (List.cons.inj hwithin).1⟩
    | cons _ outer =>
      obtain ⟨rfl, hrest⟩ := List.cons.inj hwithin
      obtain ⟨y, hy, hpiece, houter, hid, hscope⟩ := ih x hx outer e rest hrest
      exact .inr ⟨y.inside frame, List.mem_map_of_mem hy, hpiece, congrArg (frame :: ·) houter, hid,
        hscope⟩
  induction h with
  | still => exact List.forall_mem_nil _
  | @bind _ _ _ _ _ _ stops stops' _ _ ih ih' =>
    refine List.forall_mem_append.2 ⟨fun x hx outer e rest hwithin => ?_,
      fun x hx outer e rest hwithin => ?_⟩
    · obtain ⟨y, hy, hfound⟩ := ih x hx outer e rest hwithin
      exact ⟨y, List.mem_append_left stops' hy, hfound⟩
    · obtain ⟨y, hy, hfound⟩ := ih' x hx outer e rest hwithin
      exact ⟨y, List.mem_append_right stops hy, hfound⟩
  | inScope _ _ ih =>
    refine List.forall_mem_map.2 fun x hx outer e rest hwithin => ?_
    rcases hinside ih hx hwithin with ⟨-, hframe⟩ | hfound
    · cases hframe
    · exact hfound
  | here _ _ _ ih | call _ _ _ ih =>
    refine List.forall_mem_cons.2 ⟨fun outer e rest hwithin => (hnil hwithin).elim,
      fun x hx outer e rest hwithin => ?_⟩
    obtain ⟨y, hy, hfound⟩ := ih x hx outer e rest hwithin
    exact ⟨y, List.mem_cons_of_mem _ hy, hfound⟩
  | function _ ih =>
    refine List.forall_mem_cons.2 ⟨fun outer e rest hwithin => (hnil hwithin).elim, ?_⟩
    refine List.forall_mem_map.2 fun x hx outer e rest hwithin => ?_
    rcases hinside ih hx hwithin with ⟨rfl, hframe⟩ | ⟨y, hy, hfound⟩
    · obtain rfl := Frame.function.inj hframe
      exact ⟨_, List.mem_cons_self, rfl, rfl, rfl, rfl⟩
    · exact ⟨y, List.mem_cons_of_mem _ hy, hfound⟩

/-- A `var` belongs to the scope of the innermost function around. -/
theorem hoistsTo (h : Stops routine place s stops) {root : ScopeId}
    (hroot : s.flow.scopes.HoistsTo place.scope root) :
    ∀ x ∈ stops, x.state.flow.scopes.HoistsTo x.place.scope (x.bodyScope root) := by
  induction h generalizing root with
  | still => exact List.forall_mem_nil _
  | bind h _ ih ih' =>
    rw [h.restores] at ih'
    exact List.forall_mem_append.2 ⟨ih hroot, ih' (h.later.hoistsTo hroot)⟩
  | inScope hkind _ ih => exact List.forall_mem_map.2 (ih (hroot.create hkind))
  | here _ _ _ ih => exact List.forall_mem_cons.2 ⟨hroot, ih hroot⟩
  | call _ _ _ ih => exact List.forall_mem_cons.2 ⟨hroot, ih hroot⟩
  | @function name own isArrow f place s _ _ ih =>
    refine List.forall_mem_cons.2 ⟨hroot, List.forall_mem_map.2 fun x hx => ?_⟩
    have hinside := ih (Walk.scope?_entry name isArrow f place s).2.2 x hx
    show x.state.flow.scopes.HoistsTo x.place.scope _
    rw [Stop.bodyScope_function]
    exact hinside

/-- The scope of a frame is of its kind, and directly inside of the scope around. -/
theorem scopes (h : Stops routine place s stops) :
    ∀ x ∈ stops, ∀ outer frame rest, x.within = outer ++ frame :: rest →
      let around := outer.foldl Frame.place place
      (routine place s).2.flow.scopes.scope? (frame.place around).scope =
        some ⟨frame.kind, some around.scope⟩ := by
  have hnil {outer rest : List Frame} {frame : Frame} :
      ([] : List Frame) ≠ outer ++ frame :: rest :=
    by simp
  induction h with
  | still => exact List.forall_mem_nil _
  | bind h h' ih ih' =>
    rw [bind_apply _ h.restores]
    -- The second part starts where the first one did, as that has gone back.
    rw [h.restores] at h' ih'
    exact List.forall_mem_append.2 ⟨fun x hx outer frame rest hwithin =>
      h'.later.scopes _ _ (ih x hx outer frame rest hwithin), ih'⟩
  | @inScope _ routine kind _ place s stops h ih =>
    refine List.forall_mem_map.2 fun x hx outer frame rest hwithin => ?_
    cases outer with
    -- The scope that is opened here is the outermost one.
    | nil =>
      obtain ⟨rfl, -⟩ := List.cons.inj hwithin
      exact h.later.scopes _ _ ((ScopeTree.scope?_create ..).trans (if_pos rfl))
    | cons _ outer =>
      obtain ⟨rfl, hrest⟩ := List.cons.inj hwithin
      exact ih x hx outer frame rest hrest
  | here _ _ _ ih =>
    exact List.forall_mem_cons.2 ⟨fun outer frame rest hwithin => (hnil hwithin).elim, ih⟩
  | call _ hroutine _ ih =>
    rw [hroutine]
    exact List.forall_mem_cons.2 ⟨fun outer frame rest hwithin => (hnil hwithin).elim, ih⟩
  | @function name own isArrow f place s stops h ih =>
    rw [visitFunction_inside]
    refine List.forall_mem_cons.2 ⟨fun outer frame rest hwithin => (hnil hwithin).elim, ?_⟩
    refine List.forall_mem_map.2 fun x hx outer frame rest hwithin => ?_
    cases outer with
    | nil =>
      obtain ⟨rfl, -⟩ := List.cons.inj hwithin
      exact h.later.scopes _ _ (Walk.scope?_entry name isArrow f place s).2.1
    | cons _ outer =>
      obtain ⟨rfl, hrest⟩ := List.cons.inj hwithin
      exact ih x hx outer frame rest hrest

/-- The function around a stop has been registered. -/
theorem known (h : Stops routine place s stops)
    (hplace : ∀ f ∈ place.function, f.index < s.flow.program.functions.size) :
    ∀ x ∈ stops, ∀ f ∈ x.place.function, f.index < x.state.flow.program.functions.size := by
  induction h with
  | still => exact List.forall_mem_nil _
  | bind h _ ih ih' =>
    rw [h.restores] at ih'
    exact List.forall_mem_append.2 ⟨ih hplace, ih' fun f hf =>
      (hplace f hf).trans_le h.later.size_functions_le⟩
  | inScope _ _ ih => exact List.forall_mem_map.2 (ih hplace)
  | here _ _ _ ih => exact List.forall_mem_cons.2 ⟨hplace, ih hplace⟩
  | call _ _ _ ih => exact List.forall_mem_cons.2 ⟨hplace, ih hplace⟩
  | @function name own isArrow f place s _ _ ih =>
    refine List.forall_mem_cons.2 ⟨hplace, List.forall_mem_map.2 (ih ?_)⟩
    rintro _ ⟨⟩
    have hentry : (Walk.entry name isArrow f place s).state.flow.program.functions.size =
        s.flow.program.functions.size + 1 := Array.size_push _
    rw [hentry]
    exact Nat.lt_succ_self _

/-! ## What is registered -/

/-- The walk stops at every function that it registers. -/
theorem exists_function (h : Stops routine place s stops) {i : ℕ}
    (hold : s.flow.program.functions.size ≤ i)
    (hnew : i < (routine place s).2.flow.program.functions.size) :
    ∃ x ∈ stops, ∃ f, x.piece = .func f ∧ x.function = ⟨i⟩ := by
  induction h with
  | still h place s =>
    rw [h.silent] at hnew
    exact absurd hold (not_le.2 hnew)
  | @bind _ _ routine _ place s stops stops' _ _ ih ih' =>
    -- It was registered in the first part or in the second one.
    rcases lt_or_ge i (routine place s).2.flow.program.functions.size with hfirst | hlast
    · obtain ⟨x, hx, hfound⟩ := ih hold hfirst
      exact ⟨x, List.mem_append_left stops' hx, hfound⟩
    · obtain ⟨x, hx, hfound⟩ := ih' hlast hnew
      exact ⟨x, List.mem_append_right stops hx, hfound⟩
  | inScope _ _ ih =>
    obtain ⟨x, hx, hfound⟩ := ih hold hnew
    exact ⟨_, List.mem_map_of_mem hx, hfound⟩
  | here _ _ _ ih =>
    obtain ⟨x, hx, hfound⟩ := ih hold hnew
    exact ⟨x, List.mem_cons_of_mem _ hx, hfound⟩
  | call _ hroutine _ ih =>
    rw [hroutine] at hnew
    obtain ⟨x, hx, hfound⟩ := ih hold hnew
    exact ⟨x, List.mem_cons_of_mem _ hx, hfound⟩
  | @function name own isArrow f place s _ _ ih =>
    rw [visitFunction_inside] at hnew
    -- The first number that was free is that of the function itself.
    rcases hold.eq_or_lt with rfl | hlater
    · exact ⟨_, List.mem_cons_self, f, rfl, rfl⟩
    · have hentry : (Walk.entry name isArrow f place s).state.flow.program.functions.size =
          s.flow.program.functions.size + 1 := Array.size_push _
      obtain ⟨x, hx, hfound⟩ := ih (hentry ▸ hlater) hnew
      exact ⟨_, List.mem_cons_of_mem _ (List.mem_map_of_mem hx), hfound⟩

/-- The walk stops at every call that it registers. -/
theorem exists_call (h : Stops routine place s stops) {i : ℕ}
    (hold : s.flow.program.calls.size ≤ i)
    (hnew : i < (routine place s).2.flow.program.calls.size) :
    ∃ x ∈ stops, ∃ e shape, x.piece = .expr e ∧ e.callShape? = some shape ∧ x.call = ⟨i⟩ := by
  induction h with
  | still h place s =>
    rw [h.silent] at hnew
    exact absurd hold (not_le.2 hnew)
  | @bind _ _ routine _ place s stops stops' _ _ ih ih' =>
    rcases lt_or_ge i (routine place s).2.flow.program.calls.size with hfirst | hlast
    · obtain ⟨x, hx, hfound⟩ := ih hold hfirst
      exact ⟨x, List.mem_append_left stops' hx, hfound⟩
    · obtain ⟨x, hx, hfound⟩ := ih' hlast hnew
      exact ⟨x, List.mem_append_right stops hx, hfound⟩
  | inScope _ _ ih =>
    obtain ⟨x, hx, hfound⟩ := ih hold hnew
    exact ⟨_, List.mem_map_of_mem hx, hfound⟩
  | here _ _ _ ih =>
    obtain ⟨x, hx, hfound⟩ := ih hold hnew
    exact ⟨x, List.mem_cons_of_mem _ hx, hfound⟩
  | @call role e shape hshape next hroutine place s _ _ ih =>
    rw [hroutine] at hnew
    -- The first number that was free is that of the call itself.
    rcases hold.eq_or_lt with rfl | hlater
    · exact ⟨_, List.mem_cons_self, e, shape, rfl, hshape, rfl⟩
    · have hadded :
          (Walk.addCall shape.kind shape.argCount shape.span place s).2.flow.program.calls.size =
          s.flow.program.calls.size + 1 := Array.size_push _
      obtain ⟨x, hx, hfound⟩ := ih (hadded ▸ hlater) hnew
      exact ⟨x, List.mem_cons_of_mem _ hx, hfound⟩
  | function _ ih =>
    rw [visitFunction_inside] at hnew
    obtain ⟨x, hx, hfound⟩ := ih hold hnew
    exact ⟨_, List.mem_cons_of_mem _ (List.mem_map_of_mem hx), hfound⟩

end Stops

end Routine

namespace Walk

/-! ## Walks -/

/-- A walk that only grows the state, and registers nothing. -/
structure Still {α : Type} (walk : Walk α) : Prop where
  silent : Silent walk
  later : ∀ (place : Place) (s : FileState), s.flow.Later (walk place s).2.flow

/-- The stops of a walk that starts at this place in this state. -/
inductive Stops : {α : Type} → Walk α → Place → FileState → List Stop → Prop
  | still {α : Type} {walk : Walk α} (h : Still walk) (place : Place) (s : FileState) :
      Stops walk place s []
  | bind {α β : Type} {walk : Walk α} {next : α → Walk β} {place : Place} {s : FileState}
      {stops stops' : List Stop} (h : Stops walk place s stops)
      (h' : Stops (next (walk place s).1) place (walk place s).2 stops') :
      Stops (walk >>= next) place s (stops ++ stops')
  | inScope {α : Type} {walk : Walk α} {kind : ScopeKind} (hkind : kind.hoistsVars = false)
      {place : Place} {s : FileState} {stops : List Stop}
      (h : Stops walk { place with scope := ⟨s.flow.scopes.size⟩ }
        (s.createScope kind place.scope) stops) :
      Stops (inScope kind walk) place s
        (stops.map (Stop.inside (.scope kind ⟨s.flow.scopes.size⟩)))
  | here {α : Type} {piece : Piece} {walk : Walk α} (hover : Over piece walk)
      (hfunc : piece.isFunc = false) {place : Place} {s : FileState} {stops : List Stop}
      (h : Stops walk place s stops) :
      Stops walk place s ({ piece, place, state := s } :: stops)
  | call {role : Role} {e : Expr} {shape : CallShape} (hshape : e.callShape? = some shape)
      {next : CallId → Walk Evaluated}
      (hwalk : visit role e = addCall shape.kind shape.argCount shape.span >>= next)
      {place : Place} {s : FileState} {stops : List Stop}
      (h : Stops (next ⟨s.flow.program.calls.size⟩) place
        (addCall shape.kind shape.argCount shape.span place s).2 stops) :
      Stops (visit role e) place s ({ piece := .expr e, place, state := s } :: stops)
  | function {name own : Option String} {isArrow : Bool} {f : Func} {place : Place}
      {s : FileState} {stops : List Stop}
      (h : Stops (do
          declareHead (entry name isArrow f place s).value own f
          walkInside (entry name isArrow f place s).id f)
        (entry name isArrow f place s).place (entry name isArrow f place s).state stops) :
      Stops (visitFunction name own isArrow f) place s
        ({ piece := .func f, place, state := s } :: stops.map (Stop.inside (.function
          ⟨f, isArrow, ⟨s.flow.program.functions.size⟩, ⟨s.flow.scopes.size⟩⟩)))

/-- The routine of a walk over a piece is a visit of it. -/
theorem Over.routine {piece : Piece} {α : Type} {walk : Walk α} (h : Over piece walk) :
    Routine.Over piece (liftM walk : Routine α) := by
  cases h with
  | expr role e => exact Routine.visit_eq role e ▸ .expr role e
  | pattern p source => exact Routine.bind_eq p source ▸ .pattern p source
  | stmt s => exact Routine.visitStmt_eq s ▸ .stmt s
  | «class» name own c => exact Routine.visitClass_eq name own c ▸ .class name own c
  | block stmts => exact Routine.visitMember_eq (.staticBlock stmts) ▸ .block stmts
  | func name own isArrow f =>
    exact Routine.visitFunction_eq name own isArrow f ▸ .func name own isArrow f

theorem Still.routine {α : Type} {walk : Walk α} (h : Still walk) :
    Routine.Still (liftM walk : Routine α) :=
  ⟨Routine.restores_lift walk, h.silent, h.later⟩

/-- The routine of a walk stops where the walk does. -/
theorem Stops.routine {α : Type} {walk : Walk α} {place : Place} {s : FileState}
    {stops : List Stop} (h : Stops walk place s stops) :
    Routine.Stops (liftM walk : Routine α) place s stops := by
  induction h with
  | still h place s => exact .still h.routine place s
  | @bind _ _ walk next _ _ _ _ _ _ ih ih' =>
    show Routine.Stops (liftM walk >>= fun a => (liftM (next a) : Routine _)) _ _ _
    exact .bind ih ih'
  | inScope hkind _ ih => exact .inScope hkind ih
  | here hover hfunc _ ih => exact .here hover.routine hfunc ih
  | @call role e shape hshape next hwalk _ _ _ _ ih =>
    have hroutine : Routine.visit role e =
        liftM (addCall shape.kind shape.argCount shape.span) >>= fun c => liftM (next c) := by
      rw [Routine.visit_eq, hwalk]
      rfl
    rw [← Routine.visit_eq]
    exact .call hshape hroutine ih
  | @function name own isArrow f place s _ _ ih =>
    rw [← Routine.visitFunction_eq]
    exact .function (Routine.visitInside_eq _ own f ▸ ih)

end Walk

end CallFlow
