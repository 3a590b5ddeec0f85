import CallFlow.Proofs.Analysis.Arguments
import CallFlow.Proofs.Analysis.Contraction
import CallFlow.Proofs.Analysis.Order
import CallFlow.Proofs.Analysis.Wrapping
import CallFlow.Proofs.Source.Lines

/-!
# Files behind a byte order mark

A byte order mark is no part of the module: offsets count from behind it. Lines and columns are
looked up in the whole text all the same, so that a place is shown where the text stands three
bytes before it. Apart from the places nothing changes: the analysis finds the same functions and
calls, in the same order and with the same ranges.

* `position_marked` is about texts alone: what the mark makes of a position.
* `SourceFile.ReadsAs` is what is asked of whatever reads the texts: that it drops the mark, and
  that offsets are those in the rest. `SourceFile.ofText` reads so (`ReadsAs.ofText`).
* Files that read the same have the same program but for the places (`sameRanges_built`), and each
  place is looked up in the text of its file (`placedBy_built`). Together they are `run_marked`.
-/

namespace CallFlow

open Syntax

/-! ## Positions -/

namespace Source

/-- The character that may stand before a text. -/
def mark : Char := '\ufeff'

theorem utf8Size_mark : mark.utf8Size = 3 := by decide

/-- A text behind a mark. -/
def marked (text : String) : String := "\ufeff" ++ text

theorem toList_marked (text : String) : (marked text).toList = mark :: text.toList :=
  String.toList_append

variable {cs above line rest : List Char} {offset : Nat}

/-- The first line begins with the mark. -/
theorem OnLine.mark_first (h : OnLine cs offset [] line rest) {o : Nat} (ho : o ≤ offset + 3) :
    OnLine (mark :: cs) o [] (mark :: line) rest where
  split := congrArg (mark :: ·) h.split
  whole := .inl rfl
  plain := by simpa [mark] using h.plain
  start_le := Nat.zero_le _
  -- the line ends three bytes later, an offset up to there is still on it
  stop := by
    have hsize := utf8Size_mark
    refine h.stop.imp_right fun ⟨hstop, hrest⟩ => ⟨?_, hrest⟩
    rw [String.utf8Len_nil] at hstop ⊢
    rw [String.utf8Len_cons]
    omega

/-- All other lines are the same. -/
theorem OnLine.mark_later (h : OnLine cs offset above line rest) (hne : above ≠ []) :
    OnLine (mark :: cs) (offset + 3) (mark :: above) line rest where
  split := congrArg (mark :: ·) h.split
  -- the lines above are not empty, so that the mark goes to the first of them
  whole := h.whole.append_left hne [mark]
  plain := h.plain
  start_le := by
    rw [String.utf8Len_cons, utf8Size_mark]
    exact Nat.add_le_add_right h.start_le 3
  stop := by
    have hsize := utf8Size_mark
    refine h.stop.imp_right fun ⟨hstop, hrest⟩ => ⟨?_, hrest⟩
    rw [String.utf8Len_cons]
    omega

theorem unitsBefore?_mark (cs : List Char) (distance : Nat) :
    unitsBefore? (mark :: cs) (distance + 3) = (unitsBefore? cs distance).map (1 + ·) := by
  have hadd := unitsBefore?_add [mark] cs distance
  rw [String.utf8Len_cons, String.utf8Len_nil, utf8Size_mark, Nat.zero_add,
    Nat.add_comm 3] at hadd
  exact hadd

/-- No unit ends inside the mark. -/
theorem unitsBefore?_inside (cs : List Char) {distance : Nat} (h : distance < 3) :
    (unitsBefore? (mark :: cs) distance).getD distance = distance := by
  rcases Nat.eq_zero_or_pos distance with rfl | hpos
  · rfl
  · rw [unitsBefore?_cons hpos.ne', if_neg (by rw [utf8Size_mark]; omega)]
    rfl

end Source

namespace LineTable

open Source

/-- Inside the mark columns count its bytes. -/
theorem position_marked_of_lt (text : String) {offset : Nat} (h : offset < 3) :
    (ofText (marked text)).position offset = ⟨1, offset⟩ := by
  obtain ⟨above, line, rest, honLine⟩ := exists_onLine text.toList 0
  obtain rfl : above = [] := String.utf8Len_eq_zero.1 (Nat.le_zero.1 honLine.start_le)
  have hmarked := honLine.mark_first (o := offset) (by omega)
  rw [← toList_marked] at hmarked
  rw [position_onLine hmarked, String.utf8Len_nil, Nat.sub_zero, List.cons_append,
    unitsBefore?_inside _ h]
  rfl

/-- Behind the mark the first line has one column more, or three bytes, and all other lines are
those of the text. -/
theorem position_marked (text : String) (offset : Nat) :
    (ofText (marked text)).position (offset + 3) =
      let p := (ofText text).position offset
      if p.line = 1 then
        ⟨1, p.column + if IsBoundary text.toList offset then 1 else 3⟩
      else p := by
  obtain ⟨above, line, rest, h⟩ := exists_onLine text.toList offset
  rw [position_onLine h]
  -- the mark stands on the first line and no other
  by_cases hfirst : above = []
  · subst hfirst
    have hmarked := h.mark_first (Nat.le_refl _)
    rw [← toList_marked] at hmarked
    have hboundary := h.isBoundary_iff
    rw [String.utf8Len_nil, Nat.sub_zero] at hboundary
    simp only [position_onLine hmarked, String.utf8Len_nil, Nat.sub_zero, List.cons_append,
      unitsBefore?_mark, List.count_nil, Nat.add_zero, if_true]
    cases hunits : unitsBefore? (line ++ rest.take 1) offset with
    | some n =>
      -- between two characters the mark counts as one unit
      rw [if_pos (hboundary.2 (by rw [hunits]; rfl))]
      exact congrArg (Position.mk 1) (Nat.add_comm 1 n)
    | none =>
      rw [hunits] at hboundary
      -- inside of a character the column is the distance in bytes, and the mark has three
      rw [if_neg fun hb => Bool.false_ne_true (hboundary.1 hb)]
      rfl
  · have hmarked := h.mark_later hfirst
    rw [← toList_marked] at hmarked
    have hpos : 0 < above.count '\n' := List.count_pos_iff.2 (h.whole.newline_mem hfirst)
    rw [position_onLine hmarked, if_neg (by dsimp only; omega)]
    -- the distance to the start of the line is the same
    have hstart : offset + 3 - String.utf8Len (mark :: above) = offset - String.utf8Len above := by
      rw [String.utf8Len_cons, utf8Size_mark, Nat.add_sub_add_right]
    rw [hstart, List.count_cons_of_ne (by decide)]

/-- Where characters start at an offset and three bytes before it, the mark leaves a position as it
is only on the first line, and only behind one character of three bytes. -/
theorem position_marked_eq_iff {text : String} {offset : Nat}
    (h : IsBoundary text.toList offset) (h' : IsBoundary text.toList (offset + 3)) :
    (ofText (marked text)).position (offset + 3) = (ofText text).position (offset + 3) ↔
      (ofText text).position (offset + 3) = ⟨1, ((ofText text).position offset).column + 1⟩ := by
  have hbefore := position_before h h' (Nat.lt_add_of_pos_right (by decide))
  rw [position_marked, if_pos h]
  dsimp only
  split
  -- on the first line both columns are told
  next => exact eq_comm
  next hline =>
    -- on later lines the offset shows a place behind the one that is meant
    refine iff_of_false hbefore.ne fun heq => ?_
    rw [heq] at hbefore
    have hpos : 1 ≤ ((ofText text).position offset).line := by
      rw [line_position]
      exact Nat.le_add_right _ _
    unfold Position.Before at hbefore
    dsimp only at hbefore
    omega

end LineTable

/-! ## Files with the same module -/

/-- The mark is not read. -/
theorem Syntax.readSource_marked (dialect : Dialect) {text : String}
    (h : text.toList.head? ≠ some Source.mark) :
    readSource dialect (Source.marked text).toList = readSource dialect text.toList := by
  -- a text that does not start with a mark is read as a whole
  have hplain : withoutMark text.toList = text.toList := by
    unfold withoutMark
    split
    next rest heq =>
      rw [heq] at h
      exact absurd rfl h
    next => rfl
  unfold readSource
  rw [Source.toList_marked, hplain]
  rfl

namespace SourceFile

/-- Both files are at the same path, and the same module is read in both, with the same ranges. -/
structure ReadsAs (file file' : SourceFile) : Prop where
  path : file'.path = file.path
  module : file'.module? = file.module?

/-- The files of a text and of the text behind a mark read the same. -/
theorem ReadsAs.ofText (path : Path) {text : String} (h : text.toList.head? ≠ some Source.mark) :
    ReadsAs (.ofText path text) (.ofText path (Source.marked text)) where
  path := rfl
  module := congrArg (fun reading : Reading => reading.items.map Syntax.Module.mk)
    (readSource_marked (Dialect.ofFileName path.text) h)

/-- The one file may hold the text of the other behind a mark, which is not read. -/
inductive Marks : SourceFile → SourceFile → Prop
  | plain (file : SourceFile) : Marks file file
  | marked {file file' : SourceFile} (h : file.text.toList.head? ≠ some Source.mark)
    (htext : file'.text = Source.marked file.text) (hreads : file.ReadsAs file') : Marks file file'

theorem Marks.readsAs {file file' : SourceFile} (h : file.Marks file') : file.ReadsAs file' := by
  cases h with
  | plain => exact ⟨rfl, rfl⟩
  | marked _ _ hreads => exact hreads

theorem ReadsAs.alikeBare {file file' : SourceFile} (h : file.ReadsAs file') :
    file.AlikeBare file' :=
  ⟨h.path, id, id, Function.injective_id, Function.injective_id, by rw [h.module]⟩

/-- Where the files of two lists are paired, so are those that are read. -/
theorem readable_marks {files files' : List SourceFile} (h : List.Forall₂ Marks files files') :
    List.Forall₂ Marks (readable files) (readable files') := by
  induction h with
  | nil => exact .nil
  | @cons file file' _ _ hfile _ ih =>
    unfold readable at ih ⊢
    rw [List.filter_cons, List.filter_cons, hfile.readsAs.module]
    -- the two files of a pair are read or are not read together
    split
    · exact .cons hfile ih
    · exact ih

end SourceFile

/-! ### The same functions and calls -/

/-- Nothing is contracted, and nothing is moved. -/
def Contractions.none : Contractions := fun _ => { target := fun _ => .none, move := id }

/-- Files with the same modules have one list of contracted forms. -/
theorem Contractions.exists_contracts {files files' : List SourceFile}
    (h : List.Forall₂ SourceFile.ReadsAs files files') (n : Nat) :
    ∃ same, none.Contracts n files same ∧ none.Contracts n files' same := by
  induction h generalizing n with
  | nil => exact ⟨[], .nil n, .nil n⟩
  | @cons file file' _ _ hfile _ ih =>
    cases hm : file.module? with
    | none =>
      obtain ⟨same, hsame, hsame'⟩ := ih n
      have hm' := hfile.module.trans hm
      exact ⟨file :: same, .unread rfl hm hm hsame, .unread hfile.path.symm hm' hm hsame'⟩
    | some m =>
      obtain ⟨same, hsame, hsame'⟩ := ih (n + 1)
      have hm' := hfile.module.trans hm
      -- both files have this form, which no range of a contraction moves
      let form : SourceFile :=
        { file with reading := { file.reading with items := some (m.contract (none ⟨n⟩)).items } }
      have hread : form.module? = some (m.contract (none ⟨n⟩)) := rfl
      -- nothing is contracted, hence nothing is at stake
      have hkept : (none ⟨n⟩).Keeps m.spots := .of_none fun _ => rfl
      exact ⟨form :: same, .read rfl hm hread nofun hkept hsame,
        .read hfile.path.symm hm' hread nofun hkept hsame'⟩

/-- Both programs have the same functions and calls, but for their positions. -/
structure Program.SameRanges (p p' : Program) : Prop where
  files : p'.files = p.files
  functions : p'.functions.map (Function.outlined fun _ => id) =
    p.functions.map (Function.outlined fun _ => id)
  calls : p'.calls.map (CallSite.outlined fun _ => id) =
    p.calls.map (CallSite.outlined fun _ => id)

/-- Programs that are abreast of one third without a contraction have the same ranges. -/
theorem Program.Abreast.sameRanges {p p' q : Program} (h : p.Abreast .none q)
    (h' : p'.Abreast .none q) : p.SameRanges p' where
  files := h'.files.symm.trans h.files
  functions := h'.functions.symm.trans h.functions
  calls := h'.calls.symm.trans h.calls

/-! ### Where they are -/

/-- The file is walked for the source of its number. -/
def WalkedFile.IsOf (sources : List SourceFile) (file : WalkedFile) : Prop :=
  ∃ source, sources[file.id.index]? = some source ∧ source.lines = file.lines

/-- All functions and calls are placed by the lines of their files. -/
structure FlowState.PlacedBy (sources : List SourceFile) (s : FlowState) : Prop where
  closed : s.symbols.Closed
  size : s.program.files.size = sources.length
  traced : s.Traced (WalkedFile.IsOf sources)

namespace FlowState.PlacedBy

variable {sources : List SourceFile} {s : FlowState}

/-- The next file is the next source. -/
theorem addFile (h : s.PlacedBy sources) {source : SourceFile} (m : Module) :
    (s.addFile source.path source.lines m).2.PlacedBy (sources ++ [source]) where
  closed := (grows_addFile h.closed source.path source.lines m).closed h.closed
  size := by
    rw [(gains_addFile _ _ _ _).files, List.length_append, ← h.size]
    exact Array.size_push _
  traced := by
    refine (h.traced.addFile h.closed source.path source.lines m).later (.refl _) rfl ?_
    -- a file that was there keeps its source, the new one has the last
    rintro file (⟨old, hold, hlines⟩ | rfl)
    · have hlt := (List.getElem?_eq_some_iff.1 hold).1
      exact ⟨old, (List.getElem?_append_left hlt).trans hold, hlines⟩
    · refine ⟨source, ?_, rfl⟩
      show (sources ++ [source])[s.program.files.size]? = some source
      rw [h.size, List.getElem?_concat_length]

/-- A function is shown where the lines of its source show its range. -/
theorem function (h : s.PlacedBy sources) {f : FunctionId} {function : Function}
    (hf : s.program.function? f = some function) :
    ∃ source, sources[function.file.index]? = some source ∧
      function.location = source.lines.location function.location.span := by
  obtain ⟨file, ⟨source, hsource, hlines⟩, func, scope, hreads, -⟩ := h.traced.functions f _ hf
  rw [hreads.inFile]
  refine ⟨source, hsource, ?_⟩
  rw [hreads.location, hlines]
  rfl

/-- A call is shown where the lines of its source show its range. -/
theorem call (h : s.PlacedBy sources) {c : CallId} {site : CallSite}
    (hc : s.program.call? c = some site) :
    ∃ source, sources[site.file.index]? = some source ∧
      site.location = source.lines.location site.location.span := by
  obtain ⟨file, ⟨source, hsource, hlines⟩, place, e, shape, -, hreads, -⟩ :=
    h.traced.calls c _ hc
  rw [hreads.inFile]
  refine ⟨source, hsource, ?_⟩
  rw [hreads.location, hlines]
  rfl

end FlowState.PlacedBy

/-- The sources are the files that are read, in their order. -/
theorem FilesFlow.placedBy_foldl {built : FilesFlow} {sources : List SourceFile}
    (h : built.flow.PlacedBy sources) (files : List SourceFile) :
    (files.foldl add built).flow.PlacedBy (sources ++ SourceFile.readable files) := by
  induction files generalizing built sources with
  | nil => rwa [List.foldl_nil, SourceFile.readable, List.filter_nil, List.append_nil]
  | cons file files ih =>
    rw [List.foldl_cons]
    cases hm : file.module? with
    -- a file that is not read is not among the sources
    | none =>
      rw [add_of_none built hm, SourceFile.readable, List.filter_cons_of_neg (by simp [hm])]
      exact ih h
    | some m =>
      rw [add_of_some built hm, SourceFile.readable, List.filter_cons_of_pos (by simp [hm]),
        List.append_cons]
      exact ih (h.addFile m)

namespace Program.SameRanges

variable {p p' : Program} (h : p.SameRanges p')
include h

/-- A function of the one program is the same in the other, at a place with the same range. -/
theorem exists_function {f : FunctionId} {x : Function} (hx : p.function? f = some x) :
    ∃ place : Location, place.span = x.location.span ∧
      p'.function? f = some { x with location := place } := by
  have hmap : (p'.function? f).map (Function.outlined fun _ => id) =
      (p.function? f).map (Function.outlined fun _ => id) := by
    rw [function?, function?, ← Array.getElem?_map, ← Array.getElem?_map, h.functions]
  rw [hx, Option.map_some, Option.map_eq_some_iff] at hmap
  obtain ⟨y, hy, hxy⟩ := hmap
  obtain ⟨name, paramCount, file, place, enclosing, isArrow⟩ := y
  simp only [Function.outlined, Function.mk.injEq, Location.mk.injEq, true_and, id_eq] at hxy
  -- all fields but the place are in the outline
  obtain ⟨rfl, rfl, rfl, hspan, rfl, rfl⟩ := hxy
  exact ⟨place, hspan, hy⟩

/-- A call of the one program is the same in the other, at a place with the same range. -/
theorem exists_call {c : CallId} {x : CallSite} (hx : p.call? c = some x) :
    ∃ place : Location, place.span = x.location.span ∧
      p'.call? c = some { x with location := place } := by
  have hmap : (p'.call? c).map (CallSite.outlined fun _ => id) =
      (p.call? c).map (CallSite.outlined fun _ => id) := by
    rw [call?, call?, ← Array.getElem?_map, ← Array.getElem?_map, h.calls]
  rw [hx, Option.map_some, Option.map_eq_some_iff] at hmap
  obtain ⟨y, hy, hxy⟩ := hmap
  obtain ⟨kind, argCount, enclosing, file, place⟩ := y
  simp only [CallSite.outlined, CallSite.mk.injEq, Location.mk.injEq, true_and, id_eq] at hxy
  obtain ⟨rfl, rfl, rfl, rfl, hspan⟩ := hxy
  exact ⟨place, hspan, hy⟩

end Program.SameRanges

namespace Analysis

variable {files files' : List SourceFile}

/-- Only modules and paths matter for what is found. -/
theorem sameRanges_built (natives : Bool) (h : List.Forall₂ SourceFile.ReadsAs files files') :
    (built natives files).flow.program.SameRanges (built natives files').flow.program := by
  obtain ⟨same, hsame, hsame'⟩ := Contractions.exists_contracts h 0
  obtain ⟨_, habreast⟩ := abreast_built natives hsame
  obtain ⟨_, habreast'⟩ := abreast_built natives hsame'
  exact habreast.flow.program.sameRanges habreast'.flow.program

/-- And only they matter for the calls. -/
theorem calls_run_readsAs (options : AnalysisOptions)
    (h : List.Forall₂ SourceFile.ReadsAs files files') :
    (run options files').calls = (run options files).calls := by
  obtain ⟨ρ, ρ', bares, hbares, hbares'⟩ :=
    Relocation.exists_bares (h.imp fun _ _ => SourceFile.ReadsAs.alikeBare) 0
  rw [calls_run, calls_run]
  exact (moved_built options.natives hbares').calls.symm.trans
    (moved_built options.natives hbares).calls

/-- What the flow of files registers is shown by the lines of the files. -/
theorem placedBy_built (natives : Bool) (files : List SourceFile) :
    (built natives files).flow.PlacedBy (SourceFile.readable files) := by
  -- built-in functions stand in no file
  have hstart : (seeded natives).2.PlacedBy [] := by
    have hprogram := program_seeded natives
    refine ⟨?_, by rw [hprogram]; rfl, ?_, ?_⟩
    · cases natives with
      | true =>
        rw [seeded_true]
        exact nofun
      | false => exact nofun
    · rw [hprogram]
      exact nofun
    · rw [hprogram]
      exact nofun
  exact @FilesFlow.placedBy_foldl { flow := (seeded natives).2 } [] hstart files

/-- A place in one list of files, and the place of the same range in the other list. Each is read
off the lines of its file. -/
def Replaced (files files' : List SourceFile) (file : FileId) (place place' : Location) : Prop :=
  ∃ source source', (SourceFile.readable files)[file.index]? = some source ∧
    (SourceFile.readable files')[file.index]? = some source' ∧ source.Marks source' ∧
    place = source.lines.location place.span ∧ place' = source'.lines.location place.span

/-- The two places are those of one range in the files of a pair. -/
theorem replaced_of_marks (h : List.Forall₂ SourceFile.Marks files files') {file : FileId}
    {place place' : Location} (hspan : place'.span = place.span)
    (hplace : ∃ source, (SourceFile.readable files)[file.index]? = some source ∧
      place = source.lines.location place.span)
    (hplace' : ∃ source', (SourceFile.readable files')[file.index]? = some source' ∧
      place' = source'.lines.location place'.span) :
    Replaced files files' file place place' := by
  obtain ⟨source, hsource, hlines⟩ := hplace
  obtain ⟨source', hsource', hlines'⟩ := hplace'
  have hrel := rel_getElem?_of_forall₂ (SourceFile.readable_marks h) file.index
  rw [hsource, hsource'] at hrel
  cases hrel with
  | some hmarks => exact ⟨source, source', hsource, hsource', hmarks, hlines, hspan ▸ hlines'⟩

/-- **A byte order mark moves what is shown, and nothing else.** If some files stand behind a mark
that is not read, whatever reads them, the same functions and calls are found in them, with the
same ranges and the same callees. Where they start and stop is looked up in the text with the
mark: inside the first three bytes the column is the offset itself, and an offset behind them is
shown where the text stands three bytes before it, on the first line one column further, or three
if no character starts there. Between starts of characters this is right behind one character of
three bytes on the first line and nowhere else. -/
theorem run_marked (options : AnalysisOptions)
    (h : List.Forall₂ SourceFile.Marks files files') :
    let plain := run options files
    let marked := run options files'
    marked.calls = plain.calls ∧ plain.flow.program.SameRanges marked.flow.program ∧
    (∀ f x, plain.flow.program.function? f = some x →
      ∃ place, Replaced files files' x.file x.location place ∧
        marked.flow.program.function? f = some { x with location := place }) ∧
    (∀ c x, plain.flow.program.call? c = some x →
      ∃ place, Replaced files files' x.file x.location place ∧
        marked.flow.program.call? c = some { x with location := place }) ∧
    ∀ text, (∀ offset < 3, (LineTable.ofText (Source.marked text)).position offset = ⟨1, offset⟩) ∧
      ∀ offset,
        ((LineTable.ofText (Source.marked text)).position (offset + 3) =
          let p := (LineTable.ofText text).position offset
          if p.line = 1 then
            ⟨1, p.column + if Source.IsBoundary text.toList offset then 1 else 3⟩
          else p) ∧
        (Source.IsBoundary text.toList offset → Source.IsBoundary text.toList (offset + 3) →
          ((LineTable.ofText (Source.marked text)).position (offset + 3) =
              (LineTable.ofText text).position (offset + 3) ↔
            (LineTable.ofText text).position (offset + 3) =
              ⟨1, ((LineTable.ofText text).position offset).column + 1⟩)) := by
  have hreads := h.imp fun _ _ => SourceFile.Marks.readsAs
  -- the readings agree, so that the ranges and the calls do
  have hprogram := sameRanges_built options.natives hreads
  have hplaced := placedBy_built options.natives files
  have hplaced' := placedBy_built options.natives files'
  rw [← program_run options files, ← program_run options files'] at hprogram
  dsimp only
  refine ⟨calls_run_readsAs options hreads, hprogram, fun f x hx => ?_, fun c x hx => ?_,
    fun text => ⟨fun _ => LineTable.position_marked_of_lt text, fun offset =>
      ⟨LineTable.position_marked text offset, LineTable.position_marked_eq_iff⟩⟩⟩
  -- each of the two programs shows the range by the lines of its own file
  · obtain ⟨place, hspan, hx'⟩ := hprogram.exists_function hx
    rw [program_run] at hx
    refine ⟨place, replaced_of_marks h hspan (hplaced.function hx) ?_, hx'⟩
    rw [program_run] at hx'
    exact hplaced'.function hx'
  · obtain ⟨place, hspan, hx'⟩ := hprogram.exists_call hx
    rw [program_run] at hx
    refine ⟨place, replaced_of_marks h hspan (hplaced.call hx) ?_, hx'⟩
    rw [program_run] at hx'
    exact hplaced'.call hx'

/-- The call on the second line is shown to start on the first one. -/
theorem run_marked_example :
    let plain := run { natives := false } [.ofText ⟨"a.js"⟩ "\nf();"]
    let marked := run { natives := false } [.ofText ⟨"a.js"⟩ (Source.marked "\nf();")]
    List.Forall₂ SourceFile.Marks [.ofText ⟨"a.js"⟩ "\nf();"]
      [.ofText ⟨"a.js"⟩ (Source.marked "\nf();")] ∧
    marked.calls = plain.calls ∧
    (plain.flow.program.call? ⟨0⟩).map CallSite.location = some ⟨⟨2, 0⟩, ⟨2, 3⟩, ⟨1, 4⟩⟩ ∧
    (marked.flow.program.call? ⟨0⟩).map CallSite.location = some ⟨⟨1, 1⟩, ⟨2, 0⟩, ⟨1, 4⟩⟩ := by
  have hmarks : List.Forall₂ SourceFile.Marks [.ofText ⟨"a.js"⟩ "\nf();"]
      [.ofText ⟨"a.js"⟩ (Source.marked "\nf();")] :=
    .cons (.marked (by decide) rfl (.ofText ⟨"a.js"⟩ (by decide))) .nil
  exact ⟨hmarks, (run_marked { natives := false } hmarks).1, by decide +kernel,
    by decide +kernel⟩

end Analysis

end CallFlow
