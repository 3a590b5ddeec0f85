import CallFlow.FileSystem
import CallFlow.Proofs.Path.Steps

/-!
# Places in a file system

What stands above a place that exists is a directory (`directory_above`). A path leads to a place
step by step: `Path.steps` are the names and `..` in it, `steps?` takes them one after the other
from directory to directory, and the empty pieces and `.` that are written between them change
nothing as long as a step comes behind them (`follow?_eq_steps?`). So a name joined to a path
stands in the directory that the steps of the path lead to (`locate?_join`).
-/

namespace CallFlow

namespace FileSystem

variable {fs : FileSystem} {names more : List String}

/-! ## What stands at a place -/

/-- Below a file there is nothing further down either. -/
theorem isBelowFile_append (h : fs.isBelowFile names = true) (more : List String) :
    fs.isBelowFile (names ++ more) = true := by
  obtain ⟨entry, hentry, hbelow⟩ := List.any_eq_true.1 h
  refine List.any_eq_true.2 ⟨entry, hentry, ?_⟩
  simp only [Bool.and_eq_true, List.isPrefixOf_iff_prefix, decide_eq_true_eq,
    List.length_append] at hbelow ⊢
  obtain ⟨⟨hfile, habove⟩, hlength⟩ := hbelow
  exact ⟨⟨hfile, habove.trans (List.prefix_append _ _)⟩, by omega⟩

/-- What exists below the root stands below no file, and an entry is listed there or below. -/
theorem exists_entry (h : fs.at? names ≠ none) (hne : names ≠ []) :
    fs.isBelowFile names = false ∧ ∃ entry ∈ fs.entries, names <+: entry.1 := by
  rw [at?, if_neg hne] at h
  split at h
  · exact absurd rfl h
  next hbelow =>
    -- what is there is listed, or it is a directory above something that is listed
    refine ⟨by simpa using hbelow, ?_⟩
    split at h
    next above entry hfind =>
      have heq : above = names := by simpa using List.find?_some hfind
      exact ⟨_, List.mem_of_find?_eq_some hfind, heq ▸ List.prefix_refl _⟩
    next =>
      split at h
      next hany =>
        obtain ⟨entry, hentry, habove⟩ := List.any_eq_true.1 hany
        exact ⟨entry, hentry, List.isPrefixOf_iff_prefix.1 habove⟩
      next => exact absurd rfl h

/-- Above a place that exists there are only directories. -/
theorem directory_above (h : fs.at? (names ++ more) ≠ none) (hmore : more ≠ []) :
    fs.at? names = some .directory := by
  obtain ⟨hbelow, entry, hentry, habove⟩ := exists_entry h (by simp [hmore])
  have hbelow' : fs.isBelowFile names = false := by
    by_contra hfile
    rw [isBelowFile_append (by simpa using hfile)] at hbelow
    cases hbelow
  rw [at?]
  split
  · rfl
  · rw [if_neg (by simp [hbelow'])]
    split
    next above kind hfind =>
      -- anything else than a directory would hide what stands below it
      by_contra hkind
      have heq : above = names := by simpa using List.find?_some hfind
      have hhides : fs.isBelowFile (names ++ more) = true := by
        refine List.any_eq_true.2 ⟨_, List.mem_of_find?_eq_some hfind, ?_⟩
        have hlength : 0 < more.length := List.length_pos_iff.2 hmore
        have hother : kind ≠ .directory := fun h => hkind (congrArg some h)
        simpa [heq, hother] using hlength
      rw [hhides] at hbelow
      cases hbelow
    next =>
      rw [if_pos]
      exact List.any_eq_true.2 ⟨entry, hentry,
        List.isPrefixOf_iff_prefix.2 ((List.prefix_append _ _).trans habove)⟩

theorem at?_nil : fs.at? [] = some .directory := if_pos rfl

/-- The directory above a directory is one. -/
theorem directory_dropLast (h : fs.at? names = some .directory) :
    fs.at? names.dropLast = some .directory := by
  obtain rfl | ⟨above, name, rfl⟩ := names.eq_nil_or_concat'
  · exact at?_nil
  · rw [List.dropLast_concat]
    exact directory_above (by simp [h]) (List.cons_ne_nil name [])

/-! ## Following steps -/

/-- Where a component leads from a place. -/
def stepTo (here : List String) : Path.Component → List String
  | .root => []
  | .current => here
  | .parent => here.dropLast
  | .name s => here ++ [s]

/-- Where components lead from a place, if each one is followed from a directory. -/
def steps? (fs : FileSystem) : List String → List Path.Component → Option (List String)
  | here, [] => some here
  | here, c :: cs => if fs.at? here = some .directory then fs.steps? (stepTo here c) cs else none

/-- Steps one after the other. -/
theorem steps?_append (here : List String) (cs ds : List Path.Component) :
    fs.steps? here (cs ++ ds) = (fs.steps? here cs).bind (fs.steps? · ds) := by
  induction cs generalizing here with
  | nil => rfl
  | cons c cs ih =>
    rw [List.cons_append, steps?, steps?, ih]
    split <;> rfl

theorem steps?_singleton (here : List String) (c : Path.Component) :
    fs.steps? here [c] = if fs.at? here = some .directory then some (stepTo here c) else none := rfl

theorem follow?_blank {piece : List Char} (h : Path.Component.ofPiece? piece = none)
    (here : List String) (rest : List (List Char)) :
    fs.follow? here (piece :: rest) =
      if fs.at? here = some .directory then fs.follow? here rest else none := by
  rw [follow?, h]

/-- A piece that is a step is taken as one. -/
theorem follow?_step {piece : List Char} {c : Path.Component}
    (h : Path.Component.ofPiece? piece = some c) (here : List String) (rest : List (List Char)) :
    fs.follow? here (piece :: rest) =
      if fs.at? here = some .directory then fs.follow? (stepTo here c) rest else none := by
  have hkind : c = .parent ∨ ∃ s, c = .name s := by
    unfold Path.Component.ofPiece? at h
    split at h
    · cases h
    · cases h
    · exact .inl (Option.some.inj h).symm
    · exact .inr ⟨_, (Option.some.inj h).symm⟩
  rw [follow?, h]
  obtain rfl | ⟨s, rfl⟩ := hkind
  · rfl
  · rfl

/-- The pieces are followed one after the other. -/
theorem follow?_append (here : List String) (pieces more : List (List Char)) :
    fs.follow? here (pieces ++ more) = (fs.follow? here pieces).bind (fs.follow? · more) := by
  induction pieces generalizing here with
  | nil => rfl
  | cons piece pieces ih =>
    rw [List.cons_append]
    cases hpiece : Path.Component.ofPiece? piece with
    | none =>
      rw [follow?_blank hpiece, follow?_blank hpiece, ih]
      split <;> rfl
    | some c =>
      rw [follow?_step hpiece, follow?_step hpiece, ih]
      split <;> rfl

/-- Pieces lead where their components lead if the last piece is one: then what stands before a
blank piece has to be a directory in any case. -/
theorem follow?_eq_steps? {pieces : List (List Char)} {last : List Char} {c : Path.Component}
    (hlast : Path.Component.ofPiece? last = some c) (here : List String) :
    fs.follow? here (pieces ++ [last]) =
      fs.steps? here (pieces.filterMap Path.Component.ofPiece? ++ [c]) := by
  induction pieces generalizing here with
  | nil => exact follow?_step hlast here []
  | cons piece pieces ih =>
    rw [List.cons_append]
    cases hpiece : Path.Component.ofPiece? piece with
    | none =>
      rw [follow?_blank hpiece, ih, List.filterMap_cons_none hpiece]
      split
      · rfl
      next hdirectory =>
        -- without a directory the next step fails too, and there is one
        cases pieces.filterMap Path.Component.ofPiece? with
        | nil => exact (if_neg hdirectory).symm
        | cons d ds => exact (if_neg hdirectory).symm
    | some d =>
      rw [follow?_step hpiece, ih, List.filterMap_cons_some hpiece, List.cons_append, steps?]

/-- A directory that components lead to is found however they are written. -/
theorem follow?_of_steps? {pieces : List (List Char)} {here there : List String}
    (h : fs.steps? here (pieces.filterMap Path.Component.ofPiece?) = some there)
    (hthere : fs.at? there = some .directory) : fs.follow? here pieces = some there := by
  induction pieces generalizing here with
  | nil => exact h
  | cons piece pieces ih =>
    cases hpiece : Path.Component.ofPiece? piece with
    | none =>
      rw [List.filterMap_cons_none hpiece] at h
      -- either the path has come to its end, which is a directory, or a step follows
      have hdirectory : fs.at? here = some .directory := by
        cases hcs : pieces.filterMap Path.Component.ofPiece? with
        | nil =>
          rw [hcs] at h
          exact Option.some.inj h ▸ hthere
        | cons c cs =>
          rw [hcs, steps?] at h
          by_contra hnot
          rw [if_neg hnot] at h
          cases h
      rw [follow?_blank hpiece, if_pos hdirectory, ih h]
    | some c =>
      rw [List.filterMap_cons_some hpiece, steps?] at h
      rw [follow?_step hpiece]
      split at h
      · next hdirectory => rw [if_pos hdirectory, ih h]
      · cases h

/-- Where pieces lead their components lead. -/
theorem steps?_of_follow? {pieces : List (List Char)} {here there : List String}
    (h : fs.follow? here pieces = some there) :
    fs.steps? here (pieces.filterMap Path.Component.ofPiece?) = some there := by
  induction pieces generalizing here with
  | nil => exact h
  | cons piece pieces ih =>
    cases hpiece : Path.Component.ofPiece? piece with
    | none =>
      rw [follow?_blank hpiece] at h
      rw [List.filterMap_cons_none hpiece]
      split at h
      · exact ih h
      · cases h
    | some c =>
      rw [follow?_step hpiece] at h
      rw [List.filterMap_cons_some hpiece, steps?]
      split at h
      · next hdirectory => rw [if_pos hdirectory, ih h]
      · cases h

/-! ## Where a path leads -/

/-- The steps of a path, seen from the root. -/
def stepsFrom (fs : FileSystem) (p : Path) : List Path.Component :=
  if p.IsRooted then p.steps else fs.workingDirectory.steps ++ p.steps

/-- The place that the steps of a path lead to. -/
def place? (fs : FileSystem) (p : Path) : Option (List String) :=
  fs.steps? [] (fs.stepsFrom p)

/-- A relative path goes on from the working directory. -/
theorem steps_eq (fs : FileSystem) (p : Path) :
    (Text.pieces '/' (fs.workingDirectory.join p).text.toList).filterMap Path.Component.ofPiece? =
      fs.stepsFrom p := by
  rw [stepsFrom]
  split
  next h =>
    rw [Path.join_of_isRooted h]
    rfl
  next h => exact Path.steps_join h

theorem stepsFrom_join {base rest : Path} (hrest : ¬rest.IsRooted) :
    fs.stepsFrom (base.join rest) = fs.stepsFrom base ++ rest.steps := by
  simp only [stepsFrom, Path.isRooted_join hrest, Path.steps_join hrest]
  split
  · rfl
  · rw [List.append_assoc]

theorem piecesOf?_eq {p : Path} (h : p.text ≠ "") :
    fs.piecesOf? p = some (Text.pieces '/' (fs.workingDirectory.join p).text.toList) := by
  rw [piecesOf?, if_neg (by simpa using h)]

theorem ne_empty_of_locate? {p : Path} (h : fs.locate? p = some names) : p.text ≠ "" := by
  intro hempty
  rw [locate?, piecesOf?, if_pos (by simp [hempty])] at h
  cases h

/-- A path leads nowhere but where its steps lead. -/
theorem place?_of_locate? {p : Path} (h : fs.locate? p = some names) :
    fs.place? p = some names := by
  have hne := ne_empty_of_locate? h
  rw [locate?, piecesOf?_eq hne] at h
  rw [place?, ← steps_eq]
  exact steps?_of_follow? h

/-- A path leads to the directory that its steps lead to. -/
theorem locate?_of_place? {p : Path} (hne : p.text ≠ "") (h : fs.place? p = some names)
    (hdirectory : fs.at? names = some .directory) : fs.locate? p = some names := by
  rw [locate?, piecesOf?_eq hne]
  refine follow?_of_steps? ?_ hdirectory
  rwa [steps_eq]

/-- The last piece of a path is the last one that is followed. -/
theorem pieces_behind (fs : FileSystem) {p : Path} {before : List (List Char)} {last : List Char}
    (h : Text.pieces '/' p.text.toList = before ++ [last]) :
    ∃ all, Text.pieces '/' (fs.workingDirectory.join p).text.toList = all ++ [last] := by
  by_cases hrooted : p.IsRooted
  · exact ⟨before, by rw [Path.join_of_isRooted hrooted, h]⟩
  · obtain ⟨first, hfirst, -⟩ := Path.pieces_join fs.workingDirectory hrooted
    exact ⟨first ++ before, by rw [hfirst, h, List.append_assoc]⟩

/-- A path whose last piece is a step leads where its steps lead. -/
theorem locate?_eq_place? {p : Path} {before : List (List Char)} {last : List Char}
    {c : Path.Component} (hpieces : Text.pieces '/' p.text.toList = before ++ [last])
    (hlast : Path.Component.ofPiece? last = some c) : fs.locate? p = fs.place? p := by
  -- the empty path has one piece, which is no step
  have hne : p.text ≠ "" := by
    intro hempty
    rw [hempty] at hpieces
    have hnil : some [] = some last := by simpa [Text.pieces] using congrArg List.getLast? hpieces
    rw [← Option.some.inj hnil] at hlast
    cases hlast
  obtain ⟨all, hall⟩ := fs.pieces_behind hpieces
  have hsteps := fs.steps_eq p
  rw [hall, List.filterMap_append, List.filterMap_cons_some hlast, List.filterMap_nil] at hsteps
  rw [locate?, piecesOf?_eq hne, hall, place?, ← hsteps]
  exact follow?_eq_steps? hlast []

/-- Behind a blank last piece there is nothing but a directory. -/
theorem directory_of_blank {p : Path} {before : List (List Char)} {last : List Char}
    (hpieces : Text.pieces '/' p.text.toList = before ++ [last])
    (hlast : Path.Component.ofPiece? last = none) (h : fs.locate? p = some names) :
    fs.at? names = some .directory := by
  obtain ⟨all, hall⟩ := fs.pieces_behind hpieces
  rw [locate?, piecesOf?_eq (ne_empty_of_locate? h), Option.bind_some, hall, follow?_append] at h
  obtain ⟨here, -, hhere⟩ := Option.bind_eq_some_iff.1 h
  rw [follow?_blank hlast] at hhere
  split at hhere
  next hdirectory => exact Option.some.inj hhere ▸ hdirectory
  next => cases hhere

section

variable {c : Path.Component} (hc : c.IsPlain)
include hc

theorem place?_join (fs : FileSystem) (base : Path) :
    fs.place? (base.join ⟨c.text⟩) = (fs.place? base).bind fun here =>
      if fs.at? here = some .directory then some (stepTo here c) else none := by
  rw [place?, stepsFrom_join hc.not_isRooted, hc.steps_text, steps?_append]
  rfl

/-- A step joined to a path is followed from the directory that the steps of the path lead to. -/
theorem locate?_join (fs : FileSystem) (base : Path) :
    fs.locate? (base.join ⟨c.text⟩) = (fs.place? base).bind fun here =>
      if fs.at? here = some .directory then some (stepTo here c) else none := by
  obtain ⟨before, hpieces, -⟩ := Path.pieces_join base hc.not_isRooted
  rw [hc.pieces_text] at hpieces
  rw [locate?_eq_place? hpieces hc.reads, place?_join hc]

end

section

variable {dir : Path} {place : List String} (hplain : ∀ s ∈ names, (Path.Component.name s).IsPlain)
  (hexists : fs.at? (place ++ names) ≠ none)
include hplain hexists

/-- A path goes along names if what they lead to is there. -/
theorem place?_along (hplace : fs.place? dir = some place) :
    fs.place? (dir.along (names.map .name)) = some (place ++ names) := by
  induction names using List.reverseRecOn with
  | nil => rw [List.append_nil]; exact hplace
  | append_singleton above name ih =>
    obtain ⟨habove, hname⟩ := List.forall_mem_append.1 hplain
    rw [← List.append_assoc] at hexists
    -- something stands below, so that the place is a directory
    have hat := directory_above hexists (List.cons_ne_nil name [])
    have hhere := ih habove (by rw [hat]; simp)
    rw [List.map_append, List.map_singleton, Path.along_concat,
      place?_join (hname name List.mem_cons_self), hhere, Option.bind_some, if_pos hat,
      ← List.append_assoc]
    rfl

/-- Along names a path leads to what stands below the place of the path. -/
theorem locate?_along (hlocate : fs.locate? dir = some place) :
    fs.locate? (dir.along (names.map .name)) = some (place ++ names) := by
  have hplace := place?_along hplain hexists (place?_of_locate? hlocate)
  obtain rfl | ⟨above, name, rfl⟩ := names.eq_nil_or_concat'
  · rw [List.append_nil]
    exact hlocate
  · rw [List.map_append, List.map_singleton, Path.along_concat] at hplace ⊢
    have hname := hplain name (List.mem_append_right above List.mem_cons_self)
    rw [← hplace, locate?_join hname, place?_join hname]

end

end FileSystem

end CallFlow
