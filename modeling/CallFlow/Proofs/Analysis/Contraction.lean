import CallFlow.Proofs.Analysis.Monotone
import CallFlow.Proofs.Analysis.Wrapping
import CallFlow.Proofs.CallGraph.OnDemand
import CallFlow.Proofs.FileFlow.Contraction
import CallFlow.Proofs.Module.Exactness

/-!
# Expansions of logical assignments and the calls

`t ||= e` has the value of `e`, whereas the value of `t || (t = e)` is also the old value of `t`.
This is all the difference that there is: but for the edges along which old values flow into
expansions, a program with expansions has no flow that the program with the logical assignments
lacks, through linking and propagation. So a call gets a further callee only from an old value.
-/

namespace CallFlow

open Syntax

/-! ## Closed sets of edges -/

section

variable {program : Program} {S E : Set (Vertex × Vertex)}

end

/-! ## What flows where vertices stand for others -/

/-- No expression stands for two things. -/
def ExprLog.Unique (log : ExprLog) : Prop :=
  ∀ key o o', (key, o) ∈ log → (key, o') ∈ log → o = o'

/-- If an expression is logged once only, it stands for one vertex or for none. -/
theorem StandsFor.unique {log : ExprLog} (h : log.Unique) {v : Vertex} {o o' : Option Vertex}
    (ho : StandsFor log v o) (ho' : StandsFor log v o') : o = o' := by
  cases v with
  | expr key => exact h key o o' ho ho'
  | _ => exact Eq.trans ho (Eq.symm ho')

/-- Whether the vertex is a compound expression. -/
def Vertex.isExpr : Vertex → Bool
  | .expr _ => true
  | _ => false

theorem standsFor_iff {log : ExprLog} {v : Vertex} (hv : v.isExpr = false) {o : Option Vertex} :
    StandsFor log v o ↔ o = some v := by
  cases v with
  | expr key => cases hv
  | _ => exact Iff.rfl

theorem Contractions.vertex_of_not_isExpr (κ : Contractions) {v : Vertex}
    (hv : v.isExpr = false) : κ.vertex v = v := by
  cases v with
  | expr key => cases hv
  | _ => rfl

theorem Contractions.isTracked_vertex (κ : Contractions) (v : Vertex) :
    (κ.vertex v).isTracked = v.isTracked := by
  cases v <;> rfl

/-- The edges that carry nothing which does not flow along these. -/
def carriedBy (κ : Contractions) (log : ExprLog) (E : Set (Vertex × Vertex)) :
    Set (Vertex × Vertex) :=
  { e | ∀ o, StandsFor log e.1 o → StandsFor log e.2 o ∨
    StandsFor log e.2 (some (κ.vertex e.2)) ∧
      ∀ v ∈ o, v = κ.vertex e.2 ∨ (v, κ.vertex e.2) ∈ E }

section

variable {κ : Contractions} {log : ExprLog} {E : Set (Vertex × Vertex)}

/-- What flows out of a vertex that stands for itself flows where it does between what the vertices
stand for. The induction is along the path: what a vertex on it stands for is reached, and it is
tracked if the vertex is. -/
theorem flows_of_carriedBy {v x : Vertex} (hv : v.isExpr = false)
    (h : Flows (carriedBy κ log E) v x) :
    ∃ y, StandsFor log x (some y) ∧ Flows E v y ∧ (x.isTracked = true → y.isTracked = true) := by
  induction h with
  | refl => exact ⟨v, (standsFor_iff hv).2 rfl, .refl, id⟩
  | @tail x z _ hstep ih =>
    obtain ⟨htracked, hedge⟩ := hstep
    obtain ⟨y, hy, hflows, hkeeps⟩ := ih
    -- either the flow stays at the vertex that it has come to, or it goes on to that of the
    -- contraction
    rcases hedge _ hy with hz | ⟨hz, hjoined⟩
    · exact ⟨y, hz, hflows, fun _ => hkeeps htracked⟩
    · refine ⟨κ.vertex z, hz, ?_, fun ht => (κ.isTracked_vertex z).trans ht⟩
      rcases hjoined y rfl with rfl | hjoined
      · exact hflows
      · exact hflows.tail ⟨hkeeps htracked, hjoined⟩

/-- What flows to a vertex that stands for itself. -/
theorem flows_of_carriedBy_not_isExpr {v x : Vertex} (hv : v.isExpr = false)
    (hx : x.isExpr = false) (h : Flows (carriedBy κ log E) v x) : Flows E v x := by
  obtain ⟨y, hy, hflows, -⟩ := flows_of_carriedBy hv h
  obtain rfl := Option.some.inj ((standsFor_iff hx).1 hy)
  exact hflows

variable {p p' : Program}

/-- A function has its counterpart under its number, with as many parameters. -/
theorem Program.Abreast.exists_function (h : p.Abreast κ p') {f : FunctionId} {x : Function}
    (hf : p.function? f = some x) :
    ∃ y, p'.function? f = some y ∧ y.paramCount = x.paramCount := by
  have hmap : (p'.function? f).map (Function.outlined fun _ => id) =
      (p.function? f).map (Function.outlined fun file => (κ file).move) := by
    rw [Program.function?, Program.function?, ← Array.getElem?_map, ← Array.getElem?_map,
      h.functions]
  rw [hf, Option.map_some, Option.map_eq_some_iff] at hmap
  obtain ⟨y, hy, hxy⟩ := hmap
  have hparams := congrArg Function.paramCount hxy
  exact ⟨y, hy, hparams⟩

/-- A call has its counterpart under its number, with as many arguments. -/
theorem Program.Abreast.exists_call (h : p.Abreast κ p') {c : CallId} {x : CallSite}
    (hc : p.call? c = some x) : ∃ y, p'.call? c = some y ∧ y.argCount = x.argCount := by
  have hmap : (p'.call? c).map (CallSite.outlined fun _ => id) =
      (p.call? c).map (CallSite.outlined fun file => (κ file).move) := by
    rw [Program.call?, Program.call?, ← Array.getElem?_map, ← Array.getElem?_map, h.calls]
  rw [hc, Option.map_some, Option.map_eq_some_iff] at hmap
  obtain ⟨y, hy, hxy⟩ := hmap
  have hargs := congrArg CallSite.argCount hxy
  exact ⟨y, hy, hargs⟩

/-- What a call passes to a function it passes in the contracted program too. -/
theorem Program.Abreast.transfer (h : p.Abreast κ p') {f : FunctionId} {c : CallId} {a b : Vertex}
    (ht : Transfer p f c a b) : Transfer p' f c a b := by
  cases ht with
  | result hf hc =>
    obtain ⟨_, hf', -⟩ := h.exists_function hf
    obtain ⟨_, hc', -⟩ := h.exists_call hc
    exact .result hf' hc'
  | argument hf hc hslot =>
    obtain ⟨_, hf', hparams⟩ := h.exists_function hf
    obtain ⟨_, hc', hargs⟩ := h.exists_call hc
    refine .argument hf' hc' ?_
    rw [hparams, hargs]
    exact hslot

/-- What is passed goes between slots and results, never between expressions. -/
theorem Transfer.not_isExpr {f : FunctionId} {c : CallId} {a b : Vertex}
    (h : Transfer p f c a b) : a.isExpr = false ∧ b.isExpr = false := by
  cases h <;> exact ⟨rfl, rfl⟩

/-- What is carried by a closed set is closed: the ends of what is passed stand for themselves. -/
theorem FullClosed.carriedBy (hE : FullClosed p' E) (h : p.Abreast κ p') :
    FullClosed p (carriedBy κ log E) := by
  intro f c a b hflow htransfer o ho
  obtain ⟨ha, hb⟩ := htransfer.not_isExpr
  have hedge := hE f c a b (flows_of_carriedBy_not_isExpr rfl rfl hflow) (h.transfer htransfer)
  obtain rfl := (standsFor_iff ha).1 ho
  rw [κ.vertex_of_not_isExpr hb]
  refine .inr ⟨(standsFor_iff hb).2 rfl, fun v hv => .inr ?_⟩
  obtain rfl := Option.some.inj hv
  exact hedge

end

/-! ## Files -/

/-- The files of the one list with their expansions contracted are those of the other. The first to
be read has the number `n`. A walk comes to an expansion that is contracted `once`, so that it is in
no left side of a default that is walked twice; and the left sides of defaults are walked as often
as before, since it is `kept` whether their values have vertices. -/
inductive Contractions.Contracts (κ : Contractions) :
    Nat → List SourceFile → List SourceFile → Prop
  | nil (n : Nat) : Contracts κ n [] []
  | unread {n : Nat} {file file' : SourceFile} {files files' : List SourceFile}
    (path : file'.path = file.path) (unreadable : file.module? = none)
    (unreadable' : file'.module? = none) (rest : Contracts κ n files files') :
    Contracts κ n (file :: files) (file' :: files')
  | read {n : Nat} {file file' : SourceFile} {files files' : List SourceFile} {m : Module}
    (path : file'.path = file.path) (readable : file.module? = some m)
    (readable' : file'.module? = some (m.contract (κ ⟨n⟩)))
    (once : ∀ span t, (κ ⟨n⟩).target span = some t → (Spot.spans m.spots).count span ≤ 1)
    (kept : (κ ⟨n⟩).Keeps m.spots) (rest : Contracts κ (n + 1) files files') :
    Contracts κ n (file :: files) (file' :: files')

/-- The files of one list have no flow but that of the other. -/
structure FilesFlow.Abreast (κ : Contractions) (log : ExprLog) (built built' : FilesFlow) :
    Prop where
  flow : built.flow.Abreast κ log built'.flow
  records : List.Forall₂ (ModuleRecord.Abreast κ log built.flow.graph built'.flow.graph)
    built.records.toList built'.records.toList
  files : ∀ entry ∈ log, entry.1.file.index < built.flow.program.files.size
  unique : log.Unique

/-- What occurs once as the key of an entry has one value. -/
theorem eq_of_count_map_fst_le {α β : Type} [DecidableEq α] {l : List (α × β)} {a : α} {b b' : β}
    (hcount : (l.map Prod.fst).count a ≤ 1) (hb : (a, b) ∈ l) (hb' : (a, b') ∈ l) : b = b' := by
  induction l with
  | nil => cases hb
  | cons e l ih =>
    rw [List.map_cons] at hcount
    -- if the head has the key, no other entry has
    have hhead {x y : β} (hx : (a, x) = e) (hy : (a, y) ∈ l) : False := by
      rw [← hx, List.count_cons_self] at hcount
      have hpos : 0 < (l.map Prod.fst).count a :=
        List.count_pos_iff.2 (List.mem_map_of_mem (f := Prod.fst) hy)
      change (l.map Prod.fst).count a + 1 ≤ 1 at hcount
      omega
    rcases List.mem_cons.1 hb with heq | hb
    · rcases List.mem_cons.1 hb' with heq' | hb'
      · exact (Prod.mk.inj (heq.trans heq'.symm)).2
      · exact (hhead heq hb').elim
    · rcases List.mem_cons.1 hb' with heq' | hb'
      · exact (hhead heq' hb).elim
      · exact ih ((List.count_le_count_cons ..).trans hcount) hb hb'

namespace FilesFlow.Abreast

variable {κ : Contractions} {log : ExprLog} {built built' : FilesFlow}

/-- One more file that can be read. -/
theorem addFile (h : Abreast κ log built built') (path : Path) (lines lines' : LineTable)
    {m : Module} (hone : ∀ span t, (κ ⟨built.flow.program.files.size⟩).target span = some t →
      (Spot.spans m.spots).count span ≤ 1)
    (hkeeps : (κ ⟨built.flow.program.files.size⟩).Keeps m.spots) :
    let added := built.flow.addFile path lines m
    let added' := built'.flow.addFile path lines'
      (m.contract (κ ⟨built.flow.program.files.size⟩))
    ∃ log', Abreast κ log'
      { built with flow := added.2, records := built.records.push added.1 }
      { built' with flow := added'.2, records := built'.records.push added'.1 } := by
  intro added added'
  obtain ⟨met, hmet, hflow, hrecord, hfind, hfind'⟩ := h.flow.addFile path lines lines' hkeeps
  -- all that is met stands in the file
  have hfile : ∀ entry ∈ met, entry.1.file = ⟨built.flow.program.files.size⟩ := by
    intro entry hentry
    obtain ⟨span, -, hspan⟩ := List.mem_map.1 (hmet.subset (List.mem_map_of_mem hentry))
    rw [← hspan]
  have hsize : added.2.program.files.size = built.flow.program.files.size + 1 := by
    rw [(FlowState.gains_addFile _ _ _ _).files]
    exact Array.size_push _
  refine ⟨log ++ met, hflow, ?_, fun entry hentry => ?_, fun key o o' ho ho' => ?_⟩
  -- the older records mean the same with a longer log
  · rw [Array.toList_push, Array.toList_push]
    refine List.rel_append (h.records.imp fun _ _ hr => ?_) (.cons hrecord .nil)
    exact hr.mono (List.subset_append_left _ _) hfind hfind'
  · rw [hsize]
    rcases List.mem_append.1 hentry with hold | hnew
    · exact Nat.lt_succ_of_lt (h.files _ hold)
    · rw [hfile _ hnew]
      exact Nat.lt_succ_self _
  · cases ht : κ.target? key with
    | none =>
      exact (hflow.logged _ ho ht).trans (hflow.logged _ ho' ht).symm
    | some t =>
      -- older entries are of older files, so a key is met on one side only
      have hapart {x y : Option Vertex} (hx : (key, x) ∈ log) (hy : (key, y) ∈ met) : False := by
        have hlt := h.files _ hx
        rw [hfile _ hy] at hlt
        exact Nat.lt_irrefl _ hlt
      rcases List.mem_append.1 ho with hold | hnew
      · rcases List.mem_append.1 ho' with hold' | hnew'
        · exact h.unique key o o' hold hold'
        · exact (hapart hold hnew').elim
      · rcases List.mem_append.1 ho' with hold' | hnew'
        · exact (hapart hold' hnew).elim
        -- both entries are of this file, in which the expansion stands at most once
        · refine eq_of_count_map_fst_le ?_ hnew hnew'
          obtain ⟨file, span⟩ := key
          obtain rfl : file = ⟨built.flow.program.files.size⟩ := hfile _ hnew
          refine (hmet.count_le _).trans ?_
          rw [List.count_map_of_injective _ _ fun a b hab => (ExprKey.mk.inj hab).2]
          exact hone span t ht

/-- Files and their contracted forms are built abreast. -/
theorem foldl (h : Abreast κ log built built') {n : Nat}
    (hn : built.flow.program.files.size = n) {files files' : List SourceFile}
    (hfiles : κ.Contracts n files files') :
    ∃ log', Abreast κ log' (files.foldl add built) (files'.foldl add built') := by
  induction hfiles generalizing log built built' with
  | nil => exact ⟨log, h⟩
  | unread path unreadable unreadable' rest ih =>
    rw [List.foldl_cons, List.foldl_cons, add_of_none _ unreadable, add_of_none _ unreadable']
    exact ih ⟨h.flow, h.records, h.files, h.unique⟩ hn
  | @read n file file' _ _ m path readable readable' once kept rest ih =>
    subst hn
    obtain ⟨log', h'⟩ := h.addFile file.path file.lines file'.lines once kept
    rw [List.foldl_cons, List.foldl_cons, add_of_some _ readable, add_of_some _ readable', path]
    -- the file after the next has the next number
    refine ih h' ?_
    rw [(FlowState.gains_addFile _ _ _ _).files]
    exact Array.size_push _

end FilesFlow.Abreast

/-! ## Linking -/

/-- Only the paths of records matter for where specifiers lead. -/
theorem Linking.knownFiles_eq_zipIdx (records : Array ModuleRecord) :
    knownFiles records = (records.toList.map ModuleRecord.path).zipIdx.map fun (path, k) =>
      (path.normalize, k) := by
  rw [knownFiles, List.zipIdx_map, List.map_map]
  rfl

namespace FilesFlow.Abreast

variable {κ : Contractions} {log : ExprLog} {built built' : FilesFlow}

/-- A specifier leads to the contracted form of the module. -/
theorem rel_target? (h : Abreast κ log built built') (path : Path) (specifier : String) :
    Option.Rel (ModuleRecord.Abreast κ log built.flow.graph built'.flow.graph)
      (Linking.target? built.records path specifier)
      (Linking.target? built'.records path specifier) := by
  have hpaths : built'.records.toList.map ModuleRecord.path =
      built.records.toList.map ModuleRecord.path :=
    (map_eq_of_forall₂ (h.records.imp fun _ _ hr => hr.path.symm)).symm
  -- paths are those of the files, which no contraction changes
  have hknown : Linking.knownFiles built'.records = Linking.knownFiles built.records := by
    rw [Linking.knownFiles_eq_zipIdx, Linking.knownFiles_eq_zipIdx, hpaths]
  rw [Linking.target?, Linking.target?, hknown]
  cases Module.resolve (Linking.knownFiles built.records) path specifier with
  | none => exact .none
  | some k =>
    rw [Option.bind_some, Option.bind_some, ← Array.getElem?_toList, ← Array.getElem?_toList]
    exact rel_getElem?_of_forall₂ h.records k

end FilesFlow.Abreast

/-- The edges between linked modules but for those along which old values flow into expansions. -/
def FilesFlow.newEdges (κ : Contractions) (built : FilesFlow) : Set (Vertex × Vertex) :=
  { e | e ∈ built.links.graph.edgeSet ∧ ¬ OldValue κ built.flow.symbols e }

namespace FilesFlow

variable {κ : Contractions} {built : FilesFlow}

end FilesFlow

namespace FilesFlow.Abreast

variable {κ : Contractions} {log : ExprLog} {built built' : FilesFlow}

end FilesFlow.Abreast

/-! ### Values that are not used -/

namespace FilesFlow

variable {κ : Contractions} {built : FilesFlow}
  (hunused : ∀ key b, κ.target? key ≠ none → (.expr key, b) ∉ built.links.graph.edgeSet)
include hunused

end FilesFlow

/-! ## Analyses -/

/-- A state without functions and calls that has no expression in its graph. -/
theorem FlowState.Abreast.of_empty (κ : Contractions) {graph : FlowGraph}
    (h : ∀ a b, (a, b) ∈ graph.edgeSet → a.isExpr = false ∧ b.isExpr = false) :
    FlowState.Abreast κ [] { graph } { graph } := by
  have hprogram : Program.Abreast κ .empty .empty :=
    ⟨rfl, Array.map_empty.trans Array.map_empty.symm, Array.map_empty.trans Array.map_empty.symm⟩
  -- nothing has been met, and vertices that are no expressions stand for themselves
  refine ⟨hprogram, rfl, rfl, fun entry he => absurd he List.not_mem_nil, fun a b hab => .inr ?_⟩
  obtain ⟨ha, hb⟩ := h a b hab
  refine ⟨some a, (standsFor_iff ha).2 rfl, .inr ?_⟩
  rw [κ.vertex_of_not_isExpr hb]
  refine ⟨(standsFor_iff hb).2 rfl, fun v hv => .inr ?_⟩
  obtain rfl := Option.some.inj hv
  exact hab

/-- Built-in functions and their properties are no expressions. -/
theorem FlowState.Seeded.abreast {names : Set String} {graph : FlowGraph}
    (h : Seeded names graph) (κ : Contractions) :
    FlowState.Abreast κ [] { graph } { graph } := by
  refine .of_empty κ fun a b hab => ?_
  obtain ⟨name, -, heq⟩ := (h.edges _).1 hab
  obtain ⟨rfl, rfl⟩ := Prod.mk.inj heq
  exact ⟨rfl, rfl⟩

namespace Analysis

/-- Before any file nothing flows but what flows among the other files. -/
theorem abreast_seeded (κ : Contractions) (natives : Bool) :
    (seeded natives).2.Abreast κ [] (seeded natives).2 := by
  cases natives with
  | false =>
    exact .of_empty κ fun a b hab =>
      absurd (FlowGraph.has_of_mem_edgeSet hab).1 (FlowGraph.not_has_empty _)
  | true =>
    rw [seeded_true]
    exact seeded_seed.abreast κ

variable {κ : Contractions}

/-- The flow of the files and that of their contractions go abreast. -/
theorem abreast_built (natives : Bool) {files files' : List SourceFile}
    (h : κ.Contracts 0 files files') :
    ∃ log, (built natives files).Abreast κ log (built natives files') := by
  have hstart : FilesFlow.Abreast κ [] { flow := (seeded natives).2 }
      { flow := (seeded natives).2 } :=
    ⟨abreast_seeded κ natives, .nil, fun entry he => absurd he List.not_mem_nil,
      fun _ _ _ ho => absurd ho List.not_mem_nil⟩
  refine hstart.foldl ?_ h
  rw [program_seeded]
  rfl

/-- The expansion of a name with this range in the first file, and where other ranges go. -/
def ofName (name : String) (span : Span) (moved : List (Span × Span)) : Contractions := fun file =>
  { target := fun s => if file = ⟨0⟩ ∧ s = span then some (.name name) else none
    move := fun s => (moved.lookup s).getD s }

end Analysis

end CallFlow
