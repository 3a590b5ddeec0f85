import CallFlow.Proofs.Analysis.History
import CallFlow.Proofs.FileFlow.Isolation

/-!
# Files apart from each other

Whatever has been built and linked before, a file that is built next keeps to itself. So as long as
nothing has been linked, every edge lies within one file.
-/

namespace CallFlow

namespace FlowState

/-- Every edge joins vertices of one file and shared ones. -/
def Apart (s : FlowState) : Prop :=
  ∀ a b, (a, b) ∈ s.graph.edgeSet → ∃ file root, ∀ v ∈ [a, b], v.Shared ∨ s.Owns file root v

variable {s t : FlowState}

/-- What belongs to a file stays with it. -/
theorem Owns.later {file : FileId} {root : ScopeId} {v : Vertex} (hv : s.Owns file root v)
    (h : s.Later t) : t.Owns file root v := by
  cases v with
  | func f | param f _ | ret f => exact hv.imp fun function => And.imp_left (h.functions f function)
  | callee c | arg c _ | res c => exact hv.imp fun site => And.imp_left (h.calls c site)
  | var x => exact hv.imp fun symbol => And.imp (h.symbols x symbol) h.mem_ancestors
  | expr key => exact hv
  | native _ | prop _ | unknown => exact hv

/-- One more file leaves edges within files. -/
theorem Apart.later {file : FileId} {root : ScopeId} (hs : s.Apart)
    (h : s.Isolated t file root) : t.Apart := by
  intro a b hab
  rcases h.edges a b hab with hold | hnew
  · obtain ⟨file', root', hown⟩ := hs a b hold
    exact ⟨file', root', fun v hv => (hown v hv).imp_right fun howns => howns.later h.keeps⟩
  · exact ⟨file, root, fun v hv => (hnew v hv).imp_right And.left⟩

end FlowState

namespace History

/-- Nothing is named that is not there, and names are bound to their own symbols. -/
structure Tidy (h : History) : Prop where
  valid : h.Valid
  sound : h.flow.Sound
  faithful : h.flow.symbols.Faithful

variable {h : History}

/-- A graph that adds built-in functions and properties only keeps a history tidy. -/
theorem Tidy.withGraph (htidy : h.Tidy) {graph : FlowGraph} (hvalid : (h.withGraph graph).Valid)
    (hkeeps : ∀ v id, h.flow.graph.find? v = some id → graph.find? v = some id)
    (hnew : ∀ v, graph.Has v → h.flow.graph.Has v ∨ ∃ name, v = .native name ∨ v = .prop name)
    (hflagged : ∀ v, graph.Flagged v ↔ h.flow.graph.Flagged v) : (h.withGraph graph).Tidy where
  valid := hvalid
  sound := htidy.sound.withGraph hkeeps
    (fun v hv => (hnew v hv).imp_right fun ⟨_, hname⟩ => by
      rcases hname with rfl | rfl <;> exact ⟨trivial, nofun⟩)
    fun v => (hflagged v).1
  faithful := htidy.faithful

/-- Every build keeps a history tidy. -/
theorem Tidy.build (htidy : h.Tidy) (what : Build) : (h.build what).Tidy := by
  have hvalid := htidy.valid.build what
  cases what with
  | seed =>
    obtain ⟨hhas, -, hflagged⟩ := Builtin.seed_spec h.flow.graph
    refine htidy.withGraph hvalid (fun v id => Builtin.find?_seed h.flow.graph) (fun v hv => ?_)
      hflagged
    -- the new vertices are built-in functions and their properties
    rcases (hhas v).1 hv with hold | ⟨name, -, hname⟩
    · exact Or.inl hold
    · exact Or.inr (hname.elim (fun hn => ⟨_, Or.inl hn⟩) fun hp => ⟨_, Or.inr hp⟩)
  | file path lines m =>
    -- a file is a copy of what it would be alone
    have hcopies := FlowState.copies_addFile htidy.sound path lines m
    exact ⟨hvalid, hcopies.sound_amid,
      FlowState.faithful_addFile path lines m htidy.faithful htidy.valid.closed⟩
  | link numbers =>
    obtain ⟨views, hviews⟩ := htidy.valid.exists_views numbers
    have hdenotes := hviews.imp fun _ _ hd => hd.2.1
    have hadds := Linking.run_spec hdenotes
    refine htidy.withGraph hvalid hadds.keeps (fun v hv => ?_) hadds.flagged
    exact (Linking.has_run hdenotes hv).imp_right fun ⟨name, hname⟩ => ⟨name, Or.inr hname⟩

/-- Whatever is built, the state is tidy. -/
theorem tidy_after (whats : List Build) : (after (whats.map .build)).Tidy := by
  rw [after_map_build]
  refine List.foldlRecOn whats build ?_ fun _ htidy what _ => htidy.build what
  exact ⟨valid_start, .empty, SymbolTable.faithful_empty⟩

theorem Tidy.isolated (htidy : h.Tidy) (path : Path) (lines : LineTable) (m : Syntax.Module) :
    h.flow.Isolated (h.build (.file path lines m)).flow ⟨h.flow.program.files.size⟩
      ⟨h.flow.scopes.size⟩ :=
  FlowState.isolated_addFile htidy.sound htidy.faithful htidy.valid.closed path lines m

/-- Files alone, one after the other, leave edges within files. -/
theorem Tidy.apart_foldl (htidy : h.Tidy) (hapart : h.flow.Apart) {whats : List Build}
    (hfiles : ∀ what ∈ whats, ∃ path lines m, what = .file path lines m) :
    (whats.foldl History.build h).flow.Apart := by
  induction whats generalizing h with
  | nil => exact hapart
  | cons what whats ih =>
    obtain ⟨path, lines, m, rfl⟩ := hfiles what List.mem_cons_self
    have hone := hapart.later (htidy.isolated path lines m)
    exact ih (htidy.build _) hone fun other hother => hfiles other (List.mem_cons_of_mem _ hother)

/-- **Files are isolated until they are linked.** A file that is built, after whatever has been
built before, is joined within itself and with shared vertices, declares names below its own module
scope, and changes nothing that is there. So after files alone every edge is within one of them. -/
theorem isolated_build (whats : List Build) (path : Path) (lines : LineTable)
    (m : Syntax.Module) :
    (let before := (after (whats.map .build)).flow
     let later := (after ((whats ++ [Build.file path lines m]).map .build)).flow
     before.Isolated later ⟨before.program.files.size⟩ ⟨before.scopes.size⟩) ∧
    ∀ files : List SourceFile, (after ((builds files).map .build)).flow.Apart := by
  constructor
  · have hone := (tidy_after whats).isolated path lines m
    rw [after_map_build] at hone
    rwa [after_map_build, after_map_build, List.foldl_append]
  · intro files
    -- there is no edge at the start
    have hnone : ({} : History).flow.Apart := fun a b hab =>
      absurd (FlowGraph.has_of_mem_edgeSet hab).1 (FlowGraph.not_has_empty a)
    rw [after_map_build]
    -- as long as nothing is linked, each build is that of a file
    refine (tidy_after []).apart_foldl hnone fun what hwhat => ?_
    obtain ⟨file, -, hfile⟩ := List.mem_filterMap.1 hwhat
    obtain ⟨m, -, rfl⟩ := Option.map_eq_some_iff.1 hfile
    exact ⟨_, _, m, rfl⟩

end History

end CallFlow
