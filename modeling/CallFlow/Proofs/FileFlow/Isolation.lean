import CallFlow.Proofs.FileFlow.Bindings
import CallFlow.Proofs.FileFlow.Facts
import CallFlow.Proofs.FileFlow.LawfulFile

/-!
# What a file keeps to itself

All files share one graph, one tree of scopes and one table of symbols. Still a file joins its own
vertices with each other and with the shared ones only, and declares names nowhere but below its own
module scope: the file on its own does so, and its numbers are moved behind those of the others.
-/

namespace CallFlow

/-- Vertices that stand for the same thing in every file. -/
def Vertex.Shared : Vertex → Prop
  | .prop _ | .unknown => True
  | .func _ | .callee _ | .native _ | .param _ _ | .arg _ _ | .ret _ | .res _ | .var _ | .expr _ =>
    False

namespace FlowState

/-- What the vertex names has been found in this file, whose names are declared in the scope `root`
and those below it. -/
def Owns (s : FlowState) (file : FileId) (root : ScopeId) : Vertex → Prop
  | .func f | .param f _ | .ret f =>
    ∃ function, s.program.function? f = some function ∧ function.file = file
  | .callee c | .arg c _ | .res c => ∃ site, s.program.call? c = some site ∧ site.file = file
  | .var x => ∃ symbol, s.symbols.symbol? x = some symbol ∧ root ∈ s.scopes.ancestors symbol.scope
  | .expr key => key.file = file
  | .native _ | .prop _ | .unknown => False

/-- Between two states, only this file has been added: an edge that is new joins vertices of the
file and shared ones, a symbol that is new is declared in its scopes, which are new too, and nothing
that was there has changed. -/
structure Isolated (before later : FlowState) (file : FileId) (root : ScopeId) : Prop where
  moduleScope : before.scopes.scope? root = none ∧
    later.scopes.scope? root = some ⟨.moduleScope, some ScopeTree.global⟩
  edges : ∀ a b, (a, b) ∈ later.graph.edgeSet → (a, b) ∈ before.graph.edgeSet ∨
    ∀ v ∈ [a, b], v.Shared ∨ later.Owns file root v ∧ ¬ before.Names v
  symbols : ∀ x symbol, later.symbols.symbol? x = some symbol →
    before.symbols.symbol? x = some symbol ∨
      before.scopes.scope? symbol.scope = none ∧ root ∈ later.scopes.ancestors symbol.scope
  bindings : ∀ scope, before.scopes.scope? scope ≠ none → ∀ name,
    later.symbols.binding? scope name = before.symbols.binding? scope name
  keeps : before.Later later
  flagged : ∀ v, later.graph.Flagged v ↔ before.graph.Flagged v

/-- A symbol is bound where it says that it is declared. -/
theorem scope_of_symbol {s : FlowState} (h : s.Sound) (hs : s.symbols.Faithful) {x : SymbolId}
    {symbol : Symbol} (hx : s.symbols.symbol? x = some symbol) :
    s.symbols.binding? symbol.scope symbol.name = some x ∧
      0 < symbol.scope.index ∧ symbol.scope.index < s.scopes.size := by
  have hbound : s.symbols.binding? symbol.scope symbol.name = some x :=
    (hs _ _ _).2 ⟨symbol.kind, hx⟩
  obtain ⟨hpos, hlt, -⟩ := h.binds _ _ _ hbound
  exact ⟨hbound, hpos, hlt⟩

end FlowState

/-- All scopes of a file but the global one are below its module scope. -/
theorem ScopeTree.Nested.one_mem_chain {tree : ScopeTree} (h : tree.Nested) {n i : ℕ}
    (hpos : 0 < i) (hlt : i < tree.size) (hn : i < n) : (⟨1⟩ : ScopeId) ∈ tree.chain n ⟨i⟩ := by
  -- on the number of the scope, as its parent has a smaller one
  induction i using Nat.strong_induction_on generalizing n with
  | _ i ih =>
    obtain ⟨n, rfl⟩ : ∃ k, n = k + 1 := ⟨n - 1, by omega⟩
    rw [chain]
    by_cases hone : i = 1
    · subst hone
      cases tree.parent? ⟨1⟩ <;> exact List.mem_cons_self
    · have hscope : tree.scope? ⟨i⟩ = some tree.scopes[i] := Array.getElem?_eq_getElem hlt
      obtain ⟨j, hj, hjpos, hji⟩ := h.below i _ (by omega) hscope
      have hparent : tree.parent? ⟨i⟩ = some ⟨j⟩ := by rw [parent?, hscope, Option.bind_some, hj]
      rw [hparent]
      exact List.mem_cons_of_mem _ (ih j hji hjpos (hji.trans hlt) (by omega))

namespace Twin.Copies

variable {base : FlowState} {w : Twin} (h : w.Copies base)
include h

/-- The file alone is the only one, so all its numbers for files become one. -/
theorem fileId_moved {file : FileId} (hfile : file.index < w.alone.flow.extent .file) :
    base.shift.fileId file = ⟨base.program.files.size⟩ := by
  have honly : w.alone.flow.extent .file = 1 := congrArg Array.size h.own.2
  rw [honly, Nat.lt_one_iff] at hfile
  exact congrArg FileId.mk (congrArg (base.extent .file + ·) hfile)

/-- A function of the file is known to be in it, and its number was free. -/
theorem function_moved {f : FunctionId} (hf : f.index < w.alone.flow.extent .function) :
    (∃ function, w.amid.flow.program.function? (base.shift.functionId f) = some function ∧
      function.file = ⟨base.program.files.size⟩) ∧
    base.program.function? (base.shift.functionId f) = none := by
  let function := w.alone.flow.program.functions[f.index]
  have hsaid : w.alone.flow.Says (.function f function) := Array.getElem?_eq_getElem hf
  have hmoved := (h.facts_iff _).2 (Or.inr ⟨_, hsaid, rfl⟩)
  have hfile := h.fileId_moved (h.sound_alone.within hsaid).2.1
  exact ⟨⟨base.shift.function function, hmoved, hfile⟩,
    Array.getElem?_eq_none (Nat.le_add_right _ _)⟩

/-- So it is with a call. -/
theorem call_moved {c : CallId} (hc : c.index < w.alone.flow.extent .call) :
    (∃ site, w.amid.flow.program.call? (base.shift.callId c) = some site ∧
      site.file = ⟨base.program.files.size⟩) ∧
    base.program.call? (base.shift.callId c) = none := by
  let site := w.alone.flow.program.calls[c.index]
  have hsaid : w.alone.flow.Says (.call c site) := Array.getElem?_eq_getElem hc
  have hmoved := (h.facts_iff _).2 (Or.inr ⟨_, hsaid, rfl⟩)
  have hfile := h.fileId_moved (h.sound_alone.within hsaid).2.1
  exact ⟨⟨base.shift.site site, hmoved, hfile⟩, Array.getElem?_eq_none (Nat.le_add_right _ _)⟩

section

variable (halone : w.alone.flow.symbols.Faithful) (hamid : w.amid.flow.symbols.Faithful)
include halone hamid

/-- A symbol of the file alone stands, with its name, in a scope that is moved with it. -/
theorem symbol_moved {x : SymbolId} {symbol : Symbol}
    (hx : w.alone.flow.symbols.symbol? x = some symbol) :
    ∃ kind, w.amid.flow.symbols.symbol? (base.shift.symbolId x) =
      some ⟨symbol.name, kind, ScopeTree.moved base.scopes.size symbol.scope⟩ := by
  obtain ⟨hbound, -⟩ := FlowState.scope_of_symbol h.sound_alone halone hx
  refine (hamid _ _ _).1 ?_
  rw [h.symbols.binding?_moved, hbound, Option.map_some]
  rfl

/-- The scope of a symbol of the file is one of those that the file has brought. -/
theorem symbol_below {x : SymbolId} (hx : x.index < w.alone.flow.symbols.size) :
    ∃ symbol, w.amid.flow.symbols.symbol? (base.shift.symbolId x) = some symbol ∧
      base.scopes.scope? symbol.scope = none ∧
        ⟨base.scopes.size⟩ ∈ w.amid.flow.scopes.ancestors symbol.scope := by
  have hsymbol : w.alone.flow.symbols.symbol? x = some w.alone.flow.symbols.symbols[x.index] :=
    Array.getElem?_eq_getElem hx
  obtain ⟨-, hpos, hlt⟩ := FlowState.scope_of_symbol h.sound_alone halone hsymbol
  obtain ⟨kind, hmoved⟩ := h.symbol_moved halone hamid hsymbol
  refine ⟨_, hmoved, ?_, ?_⟩
  · rw [ScopeTree.moved_of_pos hpos]
    exact Array.getElem?_eq_none (Nat.le_add_right _ _)
  · -- the module scope of the file is moved too
    have hroot : ScopeTree.moved base.scopes.size ⟨1⟩ = ⟨base.scopes.size⟩ := rfl
    rw [h.scopes.ancestors_moved h.size_scopes_pos h.nested hlt, ← hroot]
    exact List.mem_map_of_mem (h.nested.one_mem_chain hpos hlt hlt)

/-- What a vertex of the file alone names belongs to the file, and is new. -/
theorem owns_moved {v : Vertex} (hv : w.alone.flow.graph.Has v) :
    (base.shift.vertex v).Shared ∨
      w.amid.flow.Owns ⟨base.program.files.size⟩ ⟨base.scopes.size⟩ (base.shift.vertex v) ∧
        ¬ base.Names (base.shift.vertex v) := by
  -- Whatever the vertex names is in the file alone, and is told apart by its kind.
  have hwithin := h.sound_alone.vertices v hv
  cases v with
  | func f | ret f =>
    obtain ⟨howns, hnew⟩ := h.function_moved hwithin
    exact Or.inr ⟨howns, fun ⟨_, hold⟩ => by rw [hnew] at hold; cases hold⟩
  | param f slot =>
    obtain ⟨howns, hnew⟩ := h.function_moved hwithin
    exact Or.inr ⟨howns, fun ⟨_, hold, _⟩ => by rw [hnew] at hold; cases hold⟩
  | callee c | res c =>
    obtain ⟨howns, hnew⟩ := h.call_moved hwithin
    exact Or.inr ⟨howns, fun ⟨_, hold⟩ => by rw [hnew] at hold; cases hold⟩
  | arg c slot =>
    obtain ⟨howns, hnew⟩ := h.call_moved hwithin
    exact Or.inr ⟨howns, fun ⟨_, hold, _⟩ => by rw [hnew] at hold; cases hold⟩
  | var x =>
    obtain ⟨symbol, hsymbol, -, hbelow⟩ := h.symbol_below halone hamid hwithin
    have hnew : base.symbols.symbol? (base.shift.symbolId x) = none :=
      Array.getElem?_eq_none (Nat.le_add_right _ _)
    exact Or.inr ⟨⟨symbol, hsymbol, hbelow⟩, fun ⟨_, hold⟩ => by rw [hnew] at hold; cases hold⟩
  | expr key =>
    have hnew : base.program.file? (base.shift.fileId key.file) = none :=
      Array.getElem?_eq_none (Nat.le_add_right _ _)
    exact Or.inr ⟨h.fileId_moved hwithin, fun ⟨_, hold⟩ => by rw [hnew] at hold; cases hold⟩
  | prop _ | unknown => exact Or.inl trivial
  | native name => exact absurd hv (h.written name)

end

end Twin.Copies

namespace FlowState

variable {s : FlowState} (h : s.Sound) (hs : s.symbols.Faithful) (hclosed : s.symbols.Closed)
  (path : Path) (lines : LineTable) (m : Syntax.Module)

theorem later_addFile (hclosed : s.symbols.Closed) : s.Later (s.addFile path lines m).2 :=
  (Later.opened s path).trans (grows_addFile hclosed path lines m).later

theorem faithful_addFile (hs : s.symbols.Faithful) (hclosed : s.symbols.Closed) :
    (s.addFile path lines m).2.symbols.Faithful :=
  (grows_addFile hclosed path lines m).faithful hs

theorem faithful_part : (part path lines m).2.symbols.Faithful :=
  faithful_addFile path lines m SymbolTable.faithful_empty nofun

include h hs hclosed

/-- What a file declares, it declares below its module scope. -/
theorem symbols_addFile {x : SymbolId} {symbol : Symbol}
    (hx : (s.addFile path lines m).2.symbols.symbol? x = some symbol) :
    s.symbols.symbol? x = some symbol ∨ s.scopes.scope? symbol.scope = none ∧
      ⟨s.scopes.size⟩ ∈ (s.addFile path lines m).2.scopes.ancestors symbol.scope := by
  have hcopies := copies_addFile h path lines m
  by_cases hold : x.index < s.symbols.size
  · -- a symbol that was there has stayed as it was
    have hsymbol : s.symbols.symbol? x = some s.symbols.symbols[x.index] :=
      Array.getElem?_eq_getElem hold
    have hsame := (later_addFile path lines m hclosed).symbols x _ hsymbol
    rw [hx, Option.some.injEq] at hsame
    exact Or.inl (hsame ▸ hsymbol)
  · have hlt : x.index < (s.addFile path lines m).2.symbols.size :=
      (Array.getElem?_eq_some_iff.1 hx).1
    have hsize : _ = s.symbols.size + (part path lines m).2.symbols.size :=
      hcopies.symbols.size_eq
    obtain ⟨i, hi⟩ := Nat.exists_eq_add_of_le (not_lt.1 hold)
    have hilt : i < (part path lines m).2.symbols.size := by
      dsimp only at hsize
      omega
    obtain ⟨found, hfound, hbelow⟩ :=
      hcopies.symbol_below (faithful_part path lines m) (faithful_addFile path lines m hs hclosed)
        (x := ⟨i⟩) hilt
    -- A number behind those of the state is a moved number of the file alone.
    have hmoved : s.shift.symbolId ⟨i⟩ = x := congrArg SymbolId.mk hi.symm
    rw [hmoved] at hfound
    obtain rfl := Option.some.inj (hx.symm.trans hfound)
    exact Or.inr hbelow

/-- A scope that was there binds no more names than before. -/
theorem binding?_addFile {scope : ScopeId} (hscope : s.scopes.scope? scope ≠ none) (name : String) :
    (s.addFile path lines m).2.symbols.binding? scope name = s.symbols.binding? scope name := by
  cases hbefore : s.symbols.binding? scope name with
  | some id => exact (later_addFile path lines m hclosed).bindings scope name id hbefore
  | none =>
    refine Option.eq_none_iff_forall_ne_some.2 fun id hid => ?_
    obtain ⟨kind, hsymbol⟩ := (faithful_addFile path lines m hs hclosed scope name id).1 hid
    rcases symbols_addFile h hs hclosed path lines m hsymbol with hthere | ⟨hnew, -⟩
    · have hbound := (hs scope name id).2 ⟨kind, hthere⟩
      rw [hbefore] at hbound
      cases hbound
    · exact hscope hnew

/-- **A file keeps to itself** wherever it is added. -/
theorem isolated_addFile :
    s.Isolated (s.addFile path lines m).2 ⟨s.program.files.size⟩ ⟨s.scopes.size⟩ := by
  have hcopies := copies_addFile h path lines m
  have hgrows := (grows_addFile hclosed path lines m).later
  refine
    { moduleScope := ⟨Array.getElem?_size, ?_⟩
      edges := fun a b hab => ?_
      symbols := fun x symbol hx => symbols_addFile h hs hclosed path lines m hx
      bindings := fun scope hscope name => binding?_addFile h hs hclosed path lines m hscope name
      keeps := later_addFile path lines m hclosed
      flagged := fun v => iff_of_false (hcopies.sound_amid.unflagged v) (h.unflagged v) }
  · have hopened : (s.opened path).flow.scopes.scope? ⟨s.scopes.size⟩ =
        some ⟨.moduleScope, some ScopeTree.global⟩ := Array.getElem?_push_size
    exact hgrows.scopes _ _ hopened
  -- An edge is old or is moved from the file alone, and then each of its ends is.
  · rw [hcopies.edges] at hab
    refine hab.imp_right ?_
    rintro ⟨⟨x, y⟩, hxy, heq⟩ v hv
    obtain ⟨rfl, rfl⟩ := Prod.mk.inj heq
    obtain ⟨hx, hy⟩ := FlowGraph.has_of_mem_edgeSet hxy
    have howns := fun {u} hu => hcopies.owns_moved (v := u) (faithful_part path lines m)
      (faithful_addFile path lines m hs hclosed) hu
    rcases List.mem_pair.1 hv with rfl | rfl
    · exact howns hx
    · exact howns hy

end FlowState

end CallFlow
