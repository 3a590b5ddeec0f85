import CallFlow.Proofs.Analysis.EdgeKinds
import CallFlow.Proofs.Analysis.WellFormed

/-!
# Arguments and parameters

The slots of a call are numbered where the call is walked, and those of a function where the
function is walked. Propagation joins the slots of one number. So an argument gets into the
parameter in the slot of its position and into no other. Where the type of the receiver is declared
it takes a slot, hence the slot of a parameter behind it is not its position.
-/

namespace CallFlow

open Syntax

/-! ## Slots and positions -/

namespace Syntax

/-- The parameter declares the type of the receiver, and does not exist when the function runs. -/
def Param.isReceiver : Param → Bool
  | .pattern _ (.ident name) => name == "this"
  | .pattern _ _ | .property _ _ _ | .propertyPattern _ _ _ => false

/-- The position of the parameter at this index when the function runs, counted from one. -/
def Func.position (func : Func) (i : ℕ) : ℕ :=
  1 + (func.params.take i).countP fun p => !p.isReceiver

variable {func : Func} {i : ℕ} {p : Param}

/-- Each declared receiver before a parameter puts it one slot behind its position, and each
parameter without a slot one slot before it. -/
theorem Func.slot_add (func : Func) (i : ℕ) :
    func.slot i + (func.params.take i).countP (fun p => !p.isSlotted) =
      func.position i + (func.params.take i).countP Param.isReceiver := by
  have hslots := (func.params.take i).length_eq_countP_add_countP Param.isSlotted
  have hpositions := (func.params.take i).length_eq_countP_add_countP Param.isReceiver
  simp only [Bool.not_eq_true, Bool.decide_eq_false] at hslots hpositions
  rw [slot, position]
  omega

/-- The slot of a parameter is one that the function has. -/
theorem Func.slot_le (hp : func.params[i]? = some p) (hslotted : p.isSlotted = true) :
    func.slot i ≤ func.params.countP Param.isSlotted := by
  have htake : (func.params.take (i + 1)).countP Param.isSlotted = func.slot i := by
    rw [List.take_add_one, hp, Option.toList_some, List.countP_append,
      List.countP_singleton, if_pos hslotted, slot, Nat.add_comm]
  rw [← htake]
  exact (List.take_sublist _ _).countP_le

end Syntax

/-! ## What stands for syntax -/

namespace FlowState

variable {s t : FlowState} {file : WalkedFile}

/-- The function has been walked by now. -/
theorem FunctionOf.entered {func : Func} {f : FunctionId} {scope : ScopeId}
    (h : t.FunctionOf file func f scope) :
    (∃ function, t.program.function? f = some function ∧
      function.paramCount = func.params.countP Param.isSlotted) ∧
    ∀ i p, func.params[i]? = some p → t.Binds (.param f (func.slot i)) scope p := by
  obtain ⟨place, before, name, own, isArrow, hclosed, hplace, rfl, rfl, hlater⟩ := h.walked
  have hlawful := Walk.lawful_visitFunction name own isArrow func before h.held
  have hentered := (hlawful place hclosed hplace).2
  obtain ⟨function, hf, hcount⟩ := hentered.function
  -- what the walk has achieved is kept by all that came after it
  refine ⟨⟨function, hlater.functions _ _ (hentered.id ▸ hf), hcount⟩, fun i p hp => ?_⟩
  exact (hentered.id ▸ hentered.params i p hp).later hlater

/-- The call has been walked by now. -/
theorem CallOf.fills {place : Place} {e : Expr} {shape : CallShape} {c : CallId}
    (h : t.CallOf file place e c) (hshape : e.callShape? = some shape) :
    t.Fills place c shape.first shape.args := by
  obtain ⟨before, role, hclosed, hplace, rfl, hlater⟩ := h.walked
  obtain ⟨callee, hcalled⟩ := Expr.exists_called hshape
  -- the callee is walked first and fills no slot of this call
  have hlawful : Walk.LawfulAt place file before (Walk.visit role e) fun u value =>
      u.Evaluates e value ∧
        u.flow.Fills place ⟨before.flow.program.calls.size⟩ shape.first shape.args :=
    Walk.lawfulAt_call h.held hshape hcalled
      (fun u => Walk.lawful_visit .callee callee u (h.held.part (Expr.called_mem_parts hcalled)))
      fun u c site hc hslots => Walk.lawfulAt_visitArgs place c shape.first shape.args u
        (Passing.argument c shape)
        (fun a ha => h.held.part (Expr.arg_mem_parts hshape ha)) hc hslots
  exact (hlawful hclosed hplace).2.2.later hlater

/-- The function is that of the syntax of a known file. -/
def FunctionTraced (known : WalkedFile → Prop) (s : FlowState) (f : FunctionId)
    (function : Function) : Prop :=
  ∃ file, known file ∧ ∃ func scope, function.Reads file func ∧ s.FunctionOf file func f scope

/-- The call is that of an expression of a known file. -/
def CallTraced (known : WalkedFile → Prop) (s : FlowState) (c : CallId) (site : CallSite) : Prop :=
  ∃ file, known file ∧ ∃ place e shape, e.callShape? = some shape ∧ site.Reads file shape ∧
    s.CallOf file place e c

/-- All functions and calls are those of known files. -/
structure Traced (known : WalkedFile → Prop) (s : FlowState) : Prop where
  functions : ∀ f function, s.program.function? f = some function →
    s.FunctionTraced known f function
  calls : ∀ c site, s.program.call? c = some site → s.CallTraced known c site

variable {known known' : WalkedFile → Prop}

theorem FunctionTraced.later {f : FunctionId} {function : Function}
    (h : s.FunctionTraced known f function) (ht : s.Later t)
    (hknown : ∀ file, known file → known' file) : t.FunctionTraced known' f function := by
  obtain ⟨file, hfile, func, scope, hreads, hof⟩ := h
  exact ⟨file, hknown file hfile, func, scope, hreads, hof.later ht⟩

theorem CallTraced.later {c : CallId} {site : CallSite} (h : s.CallTraced known c site)
    (ht : s.Later t) (hknown : ∀ file, known file → known' file) : t.CallTraced known' c site := by
  obtain ⟨file, hfile, place, e, shape, hshape, hreads, hof⟩ := h
  exact ⟨file, hknown file hfile, place, e, shape, hshape, hreads, hof.later ht⟩

/-- A state with the same program, and files that are known too. -/
theorem Traced.later (h : s.Traced known) (ht : s.Later t) (hprogram : t.program = s.program)
    (hknown : ∀ file, known file → known' file) : t.Traced known' where
  functions f function hf := (h.functions f function (hprogram ▸ hf)).later ht hknown
  calls c site hc := (h.calls c site (hprogram ▸ hc)).later ht hknown

/-- One more file brings its own functions and calls. -/
theorem Traced.addFile (h : s.Traced known) (hclosed : s.symbols.Closed) (path : Path)
    (lines : LineTable) (m : Module) :
    (s.addFile path lines m).2.Traced fun file => known file ∨ file = s.next lines m := by
  have hgrows := grows_addFile hclosed path lines m
  have hlater := (Later.opened s path).trans hgrows.later
  refine ⟨fun f function hf => ?_, fun c site hc => ?_⟩
  -- a function was there before, or it is one of the new file
  · rcases hgrows.functions hf with hold | ⟨-, hnew⟩
    · exact (h.functions f function hold).later hlater fun _ => Or.inl
    · exact ⟨_, Or.inr rfl, hnew⟩
  · rcases hgrows.calls hc with hold | ⟨-, place, e, shape, hshape, hreads, hof, -⟩
    · exact (h.calls c site hold).later hlater fun _ => Or.inl
    · exact ⟨_, Or.inr rfl, place, e, shape, hshape, hreads, hof⟩

end FlowState

namespace History

theorem traced_withGraph {h : History} (htraced : h.flow.Traced (· ∈ h.files)) {graph : FlowGraph}
    (hlater : h.flow.Later (h.withGraph graph).flow) :
    (h.withGraph graph).flow.Traced (· ∈ (h.withGraph graph).files) :=
  htraced.later hlater rfl fun _ => id

/-- **All that a history registers stands for syntax** of the files that it has built. -/
theorem traced_after (steps : List Step) :
    (after steps).flow.Traced (· ∈ (after steps).files) := by
  refine after_induction (motive := fun h => h.flow.Traced (· ∈ h.files)) ⟨nofun, nofun⟩
    fun s _ h hvalid htraced => ?_
  have hlater := hvalid.later_step s
  -- only a file registers anything: all other steps change the graph alone
  cases s with
  | round => exact traced_withGraph htraced hlater
  | build what =>
    cases what with
    | seed | link _ => exact traced_withGraph htraced hlater
    | file path lines m =>
      have hadded := htraced.addFile hvalid.closed path lines m
      refine hadded.later (.refl _) rfl fun file hfile => ?_
      exact List.mem_append.2 (hfile.imp_right List.mem_singleton.2)

end History

/-! ## Slots that are joined -/

/-- Arguments go into the slots of calls, these into the slots of functions with the same numbers,
and these into the parameters. -/
structure FlowState.Aligned (s : FlowState) (calls : CallGraph) : Prop where
  /-- The slot of an argument is its position. -/
  arguments : ∀ file place e shape c, s.CallOf file place e c → e.callShape? = some shape →
    s.Fills place c shape.first shape.args
  /-- A parameter that gets to some callee gets the argument in its slot. -/
  parameters : ∀ file func f scope, s.FunctionOf file func f scope →
    ∀ i p name, func.params[i]? = some p → p.plainName? = some name →
      ∃ x, s.symbols.binding? scope name = some x ∧
        (.param f (func.slot i), .var x) ∈ s.graph.edgeSet ∧
        (Wanted s.graph.edgeSet (.var x) → ∀ c site, .function f ∈ calls.callees c →
          s.program.call? c = some site → func.slot i ≤ site.argCount →
            (.arg c (func.slot i), .param f (func.slot i)) ∈ s.graph.edgeSet)
  /-- Nothing else comes out of arguments or into parameters. -/
  slots : ∀ a b, (a, b) ∈ s.graph.edgeSet →
    (∃ c slot, a = .arg c slot) ∨ (∃ f slot, b = .param f slot) →
      ∃ f c slot, .function f ∈ calls.callees c ∧ a = .arg c slot ∧ b = .param f slot

/-- What is settled joins a parameter with the arguments of all calls that invoke the function. -/
theorem FlowState.FunctionOf.joined {s : FlowState} {file : WalkedFile} {func : Func}
    {f : FunctionId} {scope : ScopeId} (h : s.FunctionOf file func f scope)
    (hsettled : Propagation.Settled s.program s.graph) {i : ℕ} {p : Param} {name : String}
    (hp : func.params[i]? = some p) (hname : p.plainName? = some name) :
    ∃ x, s.symbols.binding? scope name = some x ∧
      (.param f (func.slot i), .var x) ∈ s.graph.edgeSet ∧
      (Wanted s.graph.edgeSet (.var x) → ∀ c site,
        Flows s.graph.edgeSet (.func f) (.callee c) → s.program.call? c = some site →
          func.slot i ≤ site.argCount →
            (.arg c (func.slot i), .param f (func.slot i)) ∈ s.graph.edgeSet) := by
  obtain ⟨⟨function, hf, hcount⟩, hparams⟩ := h.entered
  obtain ⟨x, hx, hedge⟩ := hparams i p hp name hname
  have hslot := Func.slot_le hp (Param.isSlotted_of_plainName? hname)
  rw [← hcount] at hslot
  refine ⟨x, hx, hedge, fun hwanted c site hflow hc harg => ?_⟩
  -- the parameter is wanted since its variable is
  have hwanted' : Wanted s.graph.edgeSet (.param f (func.slot i)) :=
    hwanted.imp fun c hx => .head ⟨rfl, hedge⟩ hx
  exact hsettled.closed f c _ _ hflow (.argument hf hc (le_min hslot harg))
    (hsettled.flagged _ (.param hf hslot) hwanted')

namespace History

/-- **Propagation aligns what has been built**, since building leads neither out of arguments nor
into parameters. -/
theorem aligned_propagated {h : History} (hvalid : h.Valid)
    (hdirect : ∀ a b, (a, b) ∈ h.flow.graph.edgeSet → h.Direct a b) :
    h.propagated.flow.Aligned
      (.extract h.propagated.flow.program h.propagated.flow.graph) := by
  have hreg : CalleesRegistered h.flow.program h.flow.graph :=
    fun c hc => hvalid.wellFormed.vertices (.callee c) hc
  obtain ⟨hgrown, hsettled⟩ := Propagation.grown_run hreg
  -- what the call graph shows is what reaches a callee after the last round
  have hcallees : ∀ f c, .function f ∈
      (CallGraph.extract h.propagated.flow.program h.propagated.flow.graph).callees c ↔
        Flows h.propagated.flow.graph.edgeSet (.func f) (.callee c) :=
    fun f c => CallGraph.mem_callees_extract (hgrown.calleesRegistered hreg)
  refine ⟨fun _ _ _ _ _ hof hshape => hof.fills hshape, ?_, fun a b hab hslot => ?_⟩
  · intro file func f scope hof i p name hp hname
    obtain ⟨x, hx, hedge, hjoined⟩ := hof.joined hsettled hp hname
    exact ⟨x, hx, hedge, fun hwanted c site hcallee =>
      hjoined hwanted c site ((hcallees f c).1 hcallee)⟩
  -- an edge out of a slot or into one was not there before the first round
  · rcases Propagation.transfer_of_mem_run hreg hab with hbuilt | ⟨f, c, hflow, htransfer⟩
    · rcases hslot with ⟨c, slot, rfl⟩ | ⟨f, slot, rfl⟩
      · exact absurd trivial (hdirect _ _ hbuilt).source
      · exact absurd trivial (hdirect _ _ hbuilt).target
    · cases htransfer with
      | result _ _ => simp at hslot
      | argument _ _ _ => exact ⟨f, c, _, (hcallees f c).2 hflow, rfl, rfl⟩

end History

/-! ## Analyses -/

/-- The file is walked for the source. -/
structure SourceFile.Walked (source : SourceFile) (program : Program) (file : WalkedFile) :
    Prop where
  module : source.module? = some file.module
  lines : source.lines = file.lines
  path : program.file? file.id = some source.path

/-- A module that is built comes from one of the files. -/
theorem History.exists_source {files : List SourceFile} {path : Path} {lines : LineTable}
    {m : Module} (h : .file path lines m ∈ builds files) :
    ∃ source ∈ files, source.module? = some m ∧ source.lines = lines ∧ source.path = path := by
  obtain ⟨source, hsource, hbuild⟩ := List.mem_filterMap.1 h
  obtain ⟨m', hm, heq⟩ := Option.map_eq_some_iff.1 hbuild
  obtain ⟨rfl, rfl, rfl⟩ := Build.file.inj heq
  exact ⟨source, hsource, hm, rfl, rfl⟩

namespace Analysis

/-- **Arguments and parameters are aligned by their slots.** All calls and functions of an analysis
stand for syntax of its files. The argument at each position goes into the slot of this number, and
what is in this slot of a call gets to the parameter in the same slot of each callee, if that
parameter can get to some callee itself, and to nothing else. The slot of a parameter is its
position, except that declared receivers and parameters without a slot before it come in between. -/
theorem run_aligned (options : AnalysisOptions) (sources : List SourceFile) :
    let analysis := run options sources
    analysis.flow.Traced (fun file => ∃ source ∈ sources,
      source.Walked analysis.flow.program file) ∧
    analysis.flow.Aligned analysis.calls ∧
    ∀ func : Func, ∀ i,
      func.slot i + (func.params.take i).countP (fun p => !p.isSlotted) =
        func.position i + (func.params.take i).countP Param.isReceiver := by
  intro analysis
  obtain ⟨whats, hbuilds, hrun⟩ := History.exists_propagated_eq_run options sources
  obtain ⟨n, hrounds⟩ := History.exists_propagated_eq whats
  refine ⟨?_, ?_, Func.slot_add⟩
  · have htraced := History.traced_after (whats.map .build ++ List.replicate n .round)
    have hfiles := History.files_after (whats.map .build ++ List.replicate n .round)
    rw [hrounds] at htraced hfiles
    rw [hrun] at htraced hfiles
    -- a file of the history has been built by one of its steps, and this one for a source
    refine htraced.later (.refl _) rfl fun file hfile => ?_
    obtain ⟨path, hstep, hpath⟩ := hfiles file hfile
    have hwhat : .file path file.lines file.module ∈ whats := by
      rcases List.mem_append.1 hstep with hmem | hmem
      · obtain ⟨_, hmem, heq⟩ := List.mem_map.1 hmem
        rwa [← History.Step.build.inj heq]
      · cases List.eq_of_mem_replicate hmem
    obtain ⟨source, hsource, hm, hlines, rfl⟩ := History.exists_source (hbuilds _ _ _ hwhat)
    exact ⟨source, hsource, hm, hlines, hpath⟩
  · have haligned := History.aligned_propagated (History.valid_after _) (History.direct_after whats)
    simp only [hrun, ← calls_eq_extract] at haligned
    exact haligned

/-! ### A function that declares its receiver -/

/-- The call of what is passed. -/
def callingBack : Expr := .call false ⟨33, 37⟩ (.ident "cb") []

/-- A function with a parameter behind its receiver. -/
def takingCallback : Func :=
  .mk [.pattern [] (.ident "this"), .pattern [] (.ident "cb")]
    (.block [.expr callingBack]) ⟨0, 39⟩

/-- The call of the function with two arguments. -/
def passingTwo : Expr := .call false ⟨40, 47⟩ (.ident "f") [.literal, .ident "g"]

/-- A parameter that declares the type of the receiver, and a call that passes a function and a
number. -/
def declaring : SourceFile where
  path := ⟨"a.ts"⟩
  text := "function f(this: any, cb: any) \x7b cb() \x7d\nf(0, g)"
  dialect := .ofFileName "a.ts"
  reading := ⟨some [.stmt (.decl (.function "f" takingCallback)), .stmt (.expr passingTwo)], []⟩

/-- All pieces of the file. -/
def declaringPieces : List Piece :=
  [.stmt (.decl (.function "f" takingCallback)), .decl (.function "f" takingCallback),
    .func takingCallback, .body (.block [.expr callingBack]), .stmt (.expr callingBack),
    .expr callingBack, .expr (.ident "cb"), .param (.pattern [] (.ident "this")),
    .pattern (.ident "this"), .param (.pattern [] (.ident "cb")), .pattern (.ident "cb"),
    .stmt (.expr passingTwo), .expr passingTwo, .expr (.ident "f"), .expr .literal,
    .expr (.ident "g")]

/-- There is no other function in the file. -/
theorem eq_takingCallback {m : Module} (hm : declaring.module? = some m) {func : Func}
    (h : m.Holds (.func func)) : func = takingCallback := by
  obtain rfl := Option.some.inj hm
  obtain ⟨item, hitem, top, htop, hreach⟩ := h
  have htops : top ∈ declaringPieces := by
    rcases List.mem_pair.1 hitem with rfl | rfl <;>
      simp [List.mem_singleton.1 htop, declaringPieces]
  -- the pieces are closed under parts, so that a list of them is enough
  have hparts : ∀ a ∈ declaringPieces, ∀ b ∈ a.parts, b ∈ declaringPieces := by
    simp [declaringPieces, Piece.parts, takingCallback, callingBack, passingTwo]
  have hpieces : .func func ∈ declaringPieces := by
    generalize Piece.func func = piece at hreach
    -- each step on the way from an item stays within the list
    induction hreach with
    | refl => exact htops
    | tail _ hpart ih => exact hparts _ ih _ hpart
  simpa [declaringPieces] using hpieces

/-- The second argument gets to the parameter, which is the first one when the function runs. -/
theorem run_aligned_example :
    let flow := (run { natives := false } [declaring]).flow
    ∃ file func scope x, flow.FunctionOf file func ⟨0⟩ scope ∧
      func.params[1]? = some (.pattern [] (.ident "cb")) ∧ func.position 1 = 1 ∧
      flow.symbols.binding? scope "cb" = some x ∧
      (.arg ⟨1⟩ 2, .param ⟨0⟩ 2) ∈ flow.graph.edgeSet ∧
      (.param ⟨0⟩ 2, .var x) ∈ flow.graph.edgeSet := by
  intro flow
  obtain ⟨htraced, haligned, -⟩ := run_aligned { natives := false } [declaring]
  have hregistered : (flow.program.function? ⟨0⟩).isSome = true := by decide +kernel
  obtain ⟨function, hf⟩ := Option.isSome_iff_exists.1 hregistered
  obtain ⟨file, ⟨source, hsource, hwalked⟩, func, scope, -, hof⟩ :=
    htraced.functions ⟨0⟩ function hf
  obtain rfl := List.mem_singleton.1 hsource
  obtain rfl := eq_takingCallback hwalked.module hof.held
  obtain ⟨x, hx, hedge, hjoined⟩ := haligned.parameters file takingCallback ⟨0⟩ scope hof 1
    (.pattern [] (.ident "cb")) "cb" rfl rfl
  have hslot : takingCallback.slot 1 = 2 := by decide
  have hposition : takingCallback.position 1 = 1 := by decide
  rw [hslot] at hedge hjoined
  -- the only edge out of the slot tells which symbol it is
  have hcalled : (.var x, .callee ⟨0⟩) ∈ flow.graph.edgeSet := by
    have hparam : flow.graph.find? (.param ⟨0⟩ 2) = some ⟨3⟩ := by decide +kernel
    have hout : flow.graph.successors ⟨3⟩ = #[⟨4⟩] := by decide +kernel
    have hcallee : flow.graph.hasEdge ⟨4⟩ ⟨5⟩ = true := by decide +kernel
    obtain ⟨u, v, hu, hv, huv⟩ := FlowGraph.mem_edgeSet.1 hedge
    obtain rfl := Option.some.inj (hparam.symm.trans hu)
    rw [← FlowGraph.mem_successors, hout, Array.mem_singleton] at huv
    exact FlowGraph.mem_edgeSet.2 ⟨v, ⟨5⟩, hv, by decide +kernel, huv ▸ hcallee⟩
  have hcallees : (run { natives := false } [declaring]).calls.callees ⟨1⟩ = #[.function ⟨0⟩] := by
    decide +kernel
  have hcallee : .function ⟨0⟩ ∈ (run { natives := false } [declaring]).calls.callees ⟨1⟩ := by
    rw [hcallees]
    exact Array.mem_singleton.2 rfl
  have hcount : (flow.program.call? ⟨1⟩).map CallSite.argCount = some 2 := by decide +kernel
  obtain ⟨site, hc, hcount⟩ := Option.map_eq_some_iff.1 hcount
  refine ⟨file, takingCallback, scope, x, hof, rfl, hposition, hx, ?_, hedge⟩
  exact hjoined ⟨⟨0⟩, .single ⟨rfl, hcalled⟩⟩ ⟨1⟩ site hcallee hc hcount.ge

end Analysis

end CallFlow
