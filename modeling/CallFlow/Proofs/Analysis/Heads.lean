import CallFlow.Proofs.Analysis.Bindings
import CallFlow.Proofs.Analysis.Isolation
import CallFlow.Proofs.FileFlow.Heads

/-!
# Heads of functions

Whatever has been built before, what a function of the next file declares and what its parameter
list sees is as `Head` says. A parameter and the body share one scope with the name that the
function has inside itself, so that a default may denote what only the body declares, and a
declaration by the name of the function is the one that the function flows to.
-/

namespace CallFlow

open Syntax

/-- The scope of a module is in good standing. -/
theorem FlowState.standing_opened {s : FlowState} (hordered : s.scopes.Ordered) (hsound : s.Sound)
    (path : Path) (lines : LineTable) :
    (s.opened path).flow.Standing (s.opening lines).scope := by
  have hs : s.Standing ScopeTree.global :=
    ⟨hordered, ScopeTree.size_pos hsound.root,
      fun scope name x hx => (hsound.binds scope name x hx).2.1⟩
  exact hs.opened path lines

namespace History

/-- A scope is always below scopes with smaller numbers. -/
theorem ordered_after (whats : List Build) :
    (after (whats.map .build)).flow.scopes.Ordered :=
  (standing_leads_after _).1.ordered

/-- **Heads of functions.** In the walk by which a file is added, every function that it registers
is entered, and wherever a function is entered, its head is as it should be: all that it binds is
declared first, and what is walked then is its parameter list and its body. -/
theorem heads_after (whats : List Build) (path : Path) (lines : LineTable) (m : Module) :
    let before := (after (whats.map .build)).flow
    let walk := Walk.visitModule m
    (before.addFile path lines m).2 = (walk (before.opening lines) (before.opened path)).2.flow ∧
      ∃ es, walk.Runs (before.opening lines) (before.opened path) es ∧
        (∀ i, before.program.functions.size ≤ i →
          i < (before.addFile path lines m).2.program.functions.size →
          ∃ u ∈ es, ∃ name own isArrow f, u.act = .function name own isArrow f ∧
            (Walk.entry name isArrow f u.place u.state).id = ⟨i⟩) ∧
        ∀ u ∈ es, ∀ name own isArrow f, u.act = .function name own isArrow f →
          let e := Walk.entry name isArrow f u.place u.state
          let after := Walk.entered name own isArrow f u.place u.state
          Routine.visitFunction name own isArrow f u.place u.state =
              ((e.id, u.place), (Walk.walkInside e.id f e.place after).2) ∧
            Walk.Head own f u.place u.state e after := by
  intro before walk
  have htidy : (after (whats.map .build)).Tidy := tidy_after whats
  -- the walk starts in the scope of the module
  have hopened := FlowState.standing_opened (ordered_after whats) htidy.sound path lines
  obtain ⟨es, hruns, -⟩ := Walk.traced_visitModule m (before.opening lines) (before.opened path)
  have hadd : (before.addFile path lines m).2 =
      (walk (before.opening lines) (before.opened path)).2.flow :=
    congrArg Prod.snd (before.addFile_eq path lines m)
  refine ⟨hadd, es, hruns, fun i hold hnew => hruns.exists_function hold (hadd ▸ hnew),
    fun u hu name own isArrow f _ =>
      ⟨Routine.visitFunction_apply name own isArrow f u.place u.state, ?_⟩⟩
  have hfaithful := (hruns.continues_of_mem u hu).faithful htidy.faithful
  exact Walk.head_entered name own isArrow f ((hruns.standing hopened).2 u hu).1 hfaithful

/-- A function with a parameter by its own name, and one whose default has a name that the body
declares as well as the module. -/
def sharedModule : Module where
  items := [
    .stmt (.decl (.function "x" (.mk [] (.block []) ⟨0, 15⟩))),
    .stmt (.expr (.paren (.function (some "f") (.mk
      [.pattern [] (.ident "f"), .pattern [] (.withDefault (.ident "cb") (.ident "x"))]
      (.block [.expr (.call false ⟨41, 45⟩ (.ident "cb") []),
        .decl (.vars .var [.mk (.ident "x") none])]) ⟨17, 55⟩))))]

/-- A function whose default names what only the body declares. -/
def shared : SourceFile where
  path := ⟨"a.js"⟩
  text := "function x() \x7b\x7d (function f(f, cb = x) \x7b cb(); var x; \x7d);"
  dialect := .javaScript
  reading := ⟨some sharedModule.items, []⟩

/-- The default is the `x` of the body, which is declared beside the parameter, and not that of the
module. The function flows to the symbol that its parameter is bound to. -/
theorem head_shared :
    let flow := (({} : FlowState).addFile shared.path shared.lines sharedModule).2
    flow.scopes.scope? ⟨3⟩ = some ⟨.functionScope, some ⟨1⟩⟩ ∧
    (flow.symbols.symbolIn ⟨1⟩ "x" = some ⟨"x", .functionName, ⟨1⟩⟩ ∧
      flow.symbols.symbol? ⟨2⟩ = some ⟨"cb", .parameter, ⟨3⟩⟩ ∧
      flow.symbols.symbol? ⟨3⟩ = some ⟨"x", .variable, ⟨3⟩⟩ ∧
      flow.graph.containsEdge (.var ⟨3⟩) (.var ⟨2⟩) = true ∧
      flow.graph.containsEdge (.var ⟨0⟩) (.var ⟨2⟩) = false) ∧
    flow.symbols.symbol? ⟨1⟩ = some ⟨"f", .functionName, ⟨3⟩⟩ ∧
      flow.graph.containsEdge (.param ⟨1⟩ 1) (.var ⟨1⟩) = true ∧
      flow.graph.containsEdge (.func ⟨1⟩) (.var ⟨1⟩) = true := by
  decide +kernel

end History

end CallFlow
