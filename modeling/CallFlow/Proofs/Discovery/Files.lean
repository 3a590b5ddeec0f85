import CallFlow.Proofs.Discovery.Filter
import CallFlow.Proofs.FileSystem.Walk
import CallFlow.Proofs.Text.Name
import Mathlib.Data.String.Basic

/-!
# Which source files are found

Each path is made absolute and stands for what it then leads to: nothing, a file, or the source
files that a walk below a directory finds. `yields_sourcesAt` says so for one path;
`collect_exact` puts the paths behind each other and leaves each file where it is found first.

* The walk is not looked into: of a walker it is known that it finds what stands below a path,
  each once, without what is refused (`FileSystem.IsWalkedBy`). `FileSystem.walkFrom` is one.
* Names are what bytes spell (`FileSystem.IsName`). A name that is no text is never hidden.
* `resolved_eq` says how the absolute path is written, and `entry?_resolved` what it leads to.
-/

namespace CallFlow

namespace Path

/-- Paths that differ from each other are kept unless they have been before. -/
theorem foldl_keepNew {kept paths : List Path} (h : Distinct paths) :
    paths.foldl keepNew kept =
      (paths.filter fun path => ∀ other ∈ kept, path.components ≠ other.components).reverse ++
        kept := by
  induction paths generalizing kept with
  | nil => rfl
  | cons path paths ih =>
    obtain ⟨hnew, hpaths⟩ := Distinct.cons_iff.1 h
    rw [List.foldl_cons]
    by_cases hpath : ∀ other ∈ kept, path.components ≠ other.components
    -- the path that has just been kept differs from all later ones
    · have hrest : (paths.filter fun later =>
          ∀ other ∈ path :: kept, later.components ≠ other.components) =
            paths.filter fun later => ∀ other ∈ kept, later.components ≠ other.components := by
        refine List.filter_congr fun later hlater => decide_eq_decide.2 ?_
        rw [List.forall_mem_cons]
        exact and_iff_right (hnew later hlater).symm
      rw [keepNew_of_new hpath, ih hpaths, hrest, List.filter_cons_of_pos (by simpa using hpath),
        List.reverse_cons, List.append_assoc, List.singleton_append]
    · have hany : kept.any path.sameAs = true := by
        simpa [sameAs] using hpath
      rw [keepNew, if_pos hany, ih hpaths, List.filter_cons_of_neg (by simpa using hpath)]

/-- Of more paths without doubles those are added that are not there already. -/
theorem dedup_append {paths more : List Path} (h : Distinct more) :
    dedup (paths ++ more) = dedup paths ++
      more.filter fun path => ∀ other ∈ dedup paths, path.components ≠ other.components := by
  rw [dedup_eq, List.foldl_append, foldl_keepNew h, List.reverse_append, List.reverse_reverse,
    ← dedup_eq]
  simp [dedup_eq]

end Path

/-- A name as a directory can have it: a path can lead along it, and it is spelled as its bytes
are. -/
structure FileSystem.IsName (s : String) : Prop where
  isPlain : (Path.Component.name s).IsPlain
  isSpelled : Text.Name.IsSpelled s.toList

instance (s : String) : Decidable (FileSystem.IsName s) :=
  decidable_of_iff ((Path.Component.name s).IsPlain ∧ Text.Name.IsSpelled s.toList)
    ⟨fun h => ⟨h.1, h.2⟩, fun h => ⟨h.isPlain, h.isSpelled⟩⟩

/-- A file system is a tree if all names in it are names that a directory can have. -/
def FileSystem.IsTree (fs : FileSystem) : Prop :=
  ∀ entry ∈ fs.entries, ∀ s ∈ entry.1, IsName s

namespace Discovery

/-! ## Names -/

/-- The name of a source file: something, a dot and an extension of source files. -/
def IsSourceName (name : String) : Prop :=
  ∃ stem ext, name = stem ++ "." ++ ext ∧ stem ≠ "" ∧ ext ∈ Module.extensions

/-- The extension is what stands behind the last dot, if something stands before it. -/
theorem extension?_eq_some_iff {p : Path} {name ext : String} (hname : p.fileName? = some name) :
    p.extension? = some ext ↔
      ∃ stem, name = stem ++ "." ++ ext ∧ stem ≠ "" ∧ '.' ∉ ext.toList := by
  rw [Path.extension?, hname, Option.bind_some]
  constructor
  · intro h
    split at h
    next last second more heq =>
      split at h
      · cases h
      next hnot =>
        obtain rfl := Option.some.inj h
        have hpieces : Text.pieces '.' name.toList = (second :: more).reverse ++ [last] := by
          rw [← List.reverse_cons, ← heq, List.reverse_reverse]
        have hglue := Text.glue_pieces '.' name.toList
        rw [hpieces, Text.glue_concat (by simp)] at hglue
        refine ⟨String.ofList (Text.glue '.' (second :: more).reverse), ?_, fun hempty => ?_, ?_⟩
        · rw [← String.toList_inj]
          simp [← hglue]
        · -- nothing stands before the dot, so the name starts with it
          rw [String.ofList_eq_empty_iff] at hempty
          have hone := Text.glue_eq_nil (by simp) hempty
          refine hnot ⟨by simpa using congrArg List.length hone, ?_⟩
          rw [← hglue, hempty]
          rfl
        · rw [String.toList_ofList]
          exact Text.not_mem_of_mem_pieces (hpieces ▸ List.mem_append_right _ List.mem_cons_self)
    next => cases h
  · rintro ⟨stem, rfl, hstem, hext⟩
    have htext : (stem ++ "." ++ ext).toList = stem.toList ++ '.' :: ext.toList := by simp
    obtain ⟨second, more, hbefore⟩ := List.exists_cons_of_ne_nil
      (mt List.reverse_eq_nil_iff.1 (Text.pieces_ne_nil '.' stem.toList))
    have hpieces : (Text.pieces '.' (stem ++ "." ++ ext).toList).reverse =
        ext.toList :: second :: more := by
      rw [htext, Text.pieces_append_cons, Text.pieces_eq_splitOn '.' ext.toList,
        List.splitOn_eq_singleton hext, List.reverse_append, hbefore]
      rfl
    rw [hpieces]
    dsimp only
    rw [String.ofList_toList, if_neg]
    rintro ⟨rfl, hhead⟩
    -- one piece alone is the stem, and no piece holds a dot
    have hstem' : Text.pieces '.' stem.toList = [second] := List.reverse_eq_iff.1 hbefore
    have hdot : '.' ∉ stem.toList := by
      rw [← Text.glue_pieces '.' stem.toList, hstem']
      exact Text.not_mem_of_mem_pieces (hstem' ▸ List.mem_cons_self)
    rw [htext, List.head?_append_of_ne_nil _ (by simpa using hstem)] at hhead
    exact hdot (List.mem_of_head? hhead)

theorem isSource_iff {p : Path} :
    isSource p = true ↔ ∃ name, p.fileName? = some name ∧ IsSourceName name := by
  -- no extension of a source file has a dot, so that it is the last part of the name
  have hdot : ∀ ext ∈ Module.extensions, '.' ∉ ext.toList := by decide
  rw [isSource, Option.any_eq_true]
  simp only [List.contains_iff_mem]
  constructor
  · rintro ⟨ext, hext, hmem⟩
    cases hname : p.fileName? with
    | none =>
      rw [Path.extension?, hname] at hext
      cases hext
    | some name =>
      obtain ⟨stem, heq, hstem, -⟩ := (extension?_eq_some_iff hname).1 hext
      exact ⟨name, rfl, stem, ext, heq, hstem, hmem⟩
  · rintro ⟨name, hname, stem, ext, heq, hstem, hmem⟩
    exact ⟨ext, (extension?_eq_some_iff hname).2 ⟨stem, heq, hstem, hdot ext hmem⟩, hmem⟩

/-! ## Below a directory -/

/-- A source file that a walk from a place finds: no name that leads to it is passed over. A name
that is no text is not, whatever it starts with. -/
structure IsFoundBelow (fs : FileSystem) (place names : List String) : Prop where
  isFile : ∃ content, fs.at? (place ++ names) = some (.file content)
  isSource : ∃ name, names.getLast? = some name ∧ IsSourceName name
  isShown : ∀ name ∈ names, Text.Name.isText name.toList = true →
    name.toList.head? ≠ some '.' ∧ name ≠ "node_modules"

variable {fs : FileSystem} {walker : Walker} {p dir : Path} {place names : List String}

theorem isName_of_isTree (hfs : fs.IsTree) (h : fs.at? (place ++ names) ≠ none) :
    ∀ s ∈ names, FileSystem.IsName s := by
  intro s hs
  have hmem : s ∈ place ++ names := List.mem_append_right place hs
  obtain ⟨-, entry, hentry, habove⟩ := FileSystem.exists_entry h (List.ne_nil_of_mem hmem)
  exact hfs entry hentry s (habove.subset hmem)

theorem IsFoundBelow.isName (hfs : fs.IsTree) (h : IsFoundBelow fs place names) :
    ∀ s ∈ names, FileSystem.IsName s := by
  obtain ⟨content, hfile⟩ := h.isFile
  exact isName_of_isTree hfs (by rw [hfile]; simp)

theorem IsFoundBelow.isPlain (hfs : fs.IsTree) (h : IsFoundBelow fs place names) :
    ∀ s ∈ names, (Path.Component.name s).IsPlain := fun s hs =>
  (h.isName hfs s hs).isPlain

/-- Nothing on the way to the names is hidden if none of them is passed over. -/
theorem isHidden_above_iff : (∀ above, above <+: names → (!isHidden above) = true) ↔
    ∀ name ∈ names, Text.Name.isText name.toList = true →
      name.toList.head? ≠ some '.' ∧ name ≠ "node_modules" := by
  have hshown (name : String) : isSkipped name = false ↔
      (Text.Name.isText name.toList = true →
        name.toList.head? ≠ some '.' ∧ name ≠ "node_modules") := by
    simp [isSkipped]
  simp only [← hshown, Bool.not_eq_true']
  constructor
  -- each name is the last one of a beginning, which the walk has asked about
  · intro h name hname
    obtain ⟨before, behind, rfl⟩ := List.append_of_mem hname
    have habove := h (before ++ [name]) ⟨behind, by simp⟩
    simpa [isHidden] using habove
  · intro h above habove
    rcases above.eq_nil_or_concat' with rfl | ⟨before, name, rfl⟩
    · rfl
    · have hname := h name (habove.subset (by simp))
      simpa [isHidden] using hname

theorem pathBelow_eq (dir : Path) (names : List String) :
    pathBelow dir names = dir.along (names.map .name) := by
  rw [pathBelow, Path.along, List.foldl_map]
  rfl

theorem components_pathBelow (hdir : dir.text ≠ "")
    (hplain : ∀ s ∈ names, (Path.Component.name s).IsPlain) :
    (pathBelow dir names).components = dir.components ++ names.map .name := by
  rw [pathBelow_eq, Path.components_along (List.forall_mem_map.2 hplain) hdir]

/-- Whether a path is that of a source file depends on its last name. -/
theorem isSource_pathBelow (hdir : dir.text ≠ "") (hnames : names ≠ [])
    (hplain : ∀ s ∈ names, (Path.Component.name s).IsPlain) :
    isSource (pathBelow dir names) = true ↔
      ∃ name, names.getLast? = some name ∧ IsSourceName name := by
  have hlast : (pathBelow dir names).fileName? = names.getLast? := by
    obtain ⟨above, name, rfl⟩ := names.eq_nil_or_concat'.resolve_left hnames
    rw [Path.fileName?, components_pathBelow hdir hplain]
    simp
  rw [isSource_iff, hlast]

/-- Different names have different bytes. -/
theorem eq_of_bytesOf {a b : List String} (ha : ∀ s ∈ a, FileSystem.IsName s)
    (hb : ∀ s ∈ b, FileSystem.IsName s) (h : bytesOf a = bytesOf b) : a = b := by
  induction a generalizing b with
  | nil => exact (List.map_eq_nil_iff.1 h.symm).symm
  | cons s a ih =>
    obtain ⟨t, rest, rfl⟩ := List.exists_cons_of_ne_nil (l := b) (by rintro rfl; cases h)
    obtain ⟨hs, ha⟩ := List.forall_mem_cons.1 ha
    obtain ⟨ht, hb⟩ := List.forall_mem_cons.1 hb
    obtain ⟨hfirst, hrest⟩ := List.cons.inj h
    have hbytes := List.map_injective_iff.2 (fun _ _ => UInt8.toNat_inj.1) hfirst
    rw [String.toList_inj.1 (hs.isSpelled.ext ht.isSpelled hbytes), ih ha hb hrest]

/-- Names without doubles are put in order. -/
theorem pairwise_lt_mergeSort {listed : List (List String)} (h : listed.Nodup)
    (hnames : ∀ names ∈ listed, ∀ s ∈ names, FileSystem.IsName s) :
    (listed.mergeSort namesLe).Pairwise fun a b => bytesOf a < bytesOf b := by
  have hle (a b : List String) : namesLe a b = true ↔ bytesOf a ≤ bytesOf b := by
    rw [namesLe, decide_eq_true_iff, not_lt]
  have hsorted : (listed.mergeSort namesLe).Pairwise fun a b => namesLe a b = true := by
    refine List.pairwise_mergeSort (fun a b c => ?_) (fun a b => ?_) listed
    · simp only [hle]
      exact le_trans
    · simp only [Bool.or_eq_true, hle]
      exact le_total _ _
  have hnodup : (listed.mergeSort namesLe).Nodup :=
    (List.mergeSort_perm listed namesLe).nodup_iff.2 h
  refine (hsorted.and hnodup).imp_of_mem fun {a b} ha hb hab => ?_
  -- names that have the same bytes are the same
  refine lt_of_le_of_ne ((hle a b).1 hab.1) fun heq => hab.2 ?_
  exact eq_of_bytesOf (hnames a (List.mem_mergeSort.1 ha)) (hnames b (List.mem_mergeSort.1 hb)) heq

/-- Only files are listed. -/
theorem eq_of_fileNames? {found : List String × FileEntry} (h : fileNames? found = some names) :
    ∃ content, found = (names, .file content) := by
  obtain ⟨_, entry⟩ := found
  cases entry with
  | file content => exact ⟨content, by rw [Option.some.inj h]⟩
  | directory => cases h
  | special => cases h

/-- All files that are met are listed. -/
theorem mem_filterMap_fileNames? {entries : List (List String × FileEntry)} :
    names ∈ entries.filterMap fileNames? ↔ ∃ content, (names, .file content) ∈ entries := by
  rw [List.mem_filterMap]
  constructor
  · rintro ⟨found, hmem, hfound⟩
    obtain ⟨content, rfl⟩ := eq_of_fileNames? hfound
    exact ⟨content, hmem⟩
  · rintro ⟨content, hmem⟩
    exact ⟨_, hmem, rfl⟩

/-- **A walk finds the source files below a directory**, in order and each once. -/
theorem sourcesBelow_spec (hfs : fs.IsTree) (hwalker : fs.IsWalkedBy walker)
    (h : fs.locate? dir = some place) (hat : fs.at? place = some .directory) :
    ∃ listed : List (List String), (listed.Pairwise fun a b => bytesOf a < bytesOf b) ∧
      (∀ names, names ∈ listed ↔ IsFoundBelow fs place names) ∧
      sourcesBelow walker dir = listed.map (pathBelow dir) := by
  obtain ⟨hnodup, hmem⟩ := hwalker (fun names => !isHidden names) dir place h
  have hfiles (names : List String) :
      names ∈ (walker (fun names => !isHidden names) dir).filterMap fileNames? ↔
        (∃ content, fs.at? (place ++ names) = some (.file content)) ∧
          ∀ above, above <+: names → (!isHidden above) = true := by
    simp only [mem_filterMap_fileNames?, hmem, exists_and_right]
  have hname (names : List String)
      (hnames : names ∈ (walker (fun names => !isHidden names) dir).filterMap fileNames?) :
      ∀ s ∈ names, FileSystem.IsName s := by
    obtain ⟨⟨content, hfile⟩, -⟩ := (hfiles names).1 hnames
    exact isName_of_isTree hfs (by rw [hfile]; simp)
  have hfilesNodup : ((walker (fun names => !isHidden names) dir).filterMap fileNames?).Nodup := by
    refine List.pairwise_filterMap.2
      (hnodup.imp_of_mem fun {a b} ha hb hne names hnames other hother => ?_)
    rintro rfl
    obtain ⟨content, rfl⟩ := eq_of_fileNames? hnames
    obtain ⟨content', rfl⟩ := eq_of_fileNames? hother
    -- the same names lead to the same entry
    exact hne (congrArg (Prod.mk names)
      (Option.some.inj (((hmem _ _).1 ha).1.symm.trans ((hmem _ _).1 hb).1)))
  rw [sourcesBelow, List.filter_map]
  refine ⟨_, (pairwise_lt_mergeSort hfilesNodup hname).filter _, fun names => ?_, rfl⟩
  rw [List.mem_filter, List.mem_mergeSort, hfiles, isHidden_above_iff, Function.comp_apply]
  have hdir := FileSystem.ne_empty_of_locate? h
  constructor
  · rintro ⟨⟨⟨content, hfile⟩, hall⟩, hsource⟩
    have hne : names ≠ [] := by
      rintro rfl
      rw [List.append_nil, hat] at hfile
      cases hfile
    have hplain (s : String) (hs : s ∈ names) : (Path.Component.name s).IsPlain :=
      (isName_of_isTree hfs (by rw [hfile]; simp) s hs).isPlain
    exact ⟨⟨content, hfile⟩, (isSource_pathBelow hdir hne hplain).1 hsource, hall⟩
  · intro hfound
    obtain ⟨name, hlast, -⟩ := hfound.isSource
    have hne : names ≠ [] := fun hnil => by simp [hnil] at hlast
    refine ⟨⟨hfound.isFile, hfound.isShown⟩, ?_⟩
    exact (isSource_pathBelow hdir hne (hfound.isPlain hfs)).2 hfound.isSource

/-- Below what is neither a file nor a directory a walk finds no file. -/
theorem sourcesBelow_special (hwalker : fs.IsWalkedBy walker) (h : fs.locate? dir = some place)
    (hat : fs.at? place = some .special) : sourcesBelow walker dir = [] := by
  have hnone : (walker (fun names => !isHidden names) dir).filterMap fileNames? = [] := by
    refine List.eq_nil_iff_forall_not_mem.2 fun names hnames => ?_
    obtain ⟨content, hfound⟩ := mem_filterMap_fileNames?.1 hnames
    have hfile := (((hwalker _ dir place h).2 _ _).1 hfound).1
    -- what is found is the place itself or below a directory, and here is neither
    by_cases hnil : names = []
    · rw [hnil, List.append_nil, hat] at hfile
      cases hfile
    · have hdirectory :=
        FileSystem.directory_above (by rw [hfile]; exact Option.some_ne_none _) hnil
      rw [hat] at hdirectory
      cases hdirectory
  simp [sourcesBelow, hnone]

/-! ## One path -/

/-- What a path stands for: nothing, the file that it leads to if this is a source file, or the
source files below the directory that it leads to, in the order of the bytes of the names that
lead there. -/
inductive Yields (fs : FileSystem) (p : Path) : List Path → Prop
  | missing (h : fs.entry? p = none) : Yields fs p []
  | special (h : fs.entry? p = some .special) : Yields fs p []
  | source {content : FileContent} {name : String} (h : fs.entry? p = some (.file content))
      (hname : p.fileName? = some name) (hsource : IsSourceName name) : Yields fs p [p]
  | other {content : FileContent} (h : fs.entry? p = some (.file content))
      (hother : ∀ name, p.fileName? = some name → ¬IsSourceName name) : Yields fs p []
  | directory {place : List String} {listed : List (List String)} (h : fs.locate? p = some place)
      (hat : fs.at? place = some .directory)
      (hsorted : listed.Pairwise fun a b => bytesOf a < bytesOf b)
      (hmem : ∀ names, names ∈ listed ↔ IsFoundBelow fs place names) :
      Yields fs p (listed.map (pathBelow p))

theorem yields_sourcesAt (hfs : fs.IsTree) (hwalker : fs.IsWalkedBy walker) (p : Path) :
    Yields fs p (sourcesAt walker fs p) := by
  rw [sourcesAt]
  split
  next h => exact .missing h
  -- a file is given as it is, if it is a source file
  next content h =>
    split
    next hsource =>
      obtain ⟨name, hname, hsource⟩ := isSource_iff.1 hsource
      exact .source h hname hsource
    next hother =>
      exact .other h fun name hname hsource => hother (isSource_iff.2 ⟨name, hname, hsource⟩)
  -- anything else is walked
  next entry hfile h =>
    obtain ⟨place, hlocate, hat⟩ := Option.bind_eq_some_iff.1 h
    cases entry with
    -- a file has been dealt with
    | file content => exact absurd rfl (hfile content)
    | special =>
      rw [sourcesBelow_special hwalker hlocate hat]
      exact .special h
    | directory =>
      obtain ⟨listed, hsorted, hmem, heq⟩ := sourcesBelow_spec hfs hwalker hlocate hat
      rw [heq]
      exact .directory hlocate hat hsorted hmem

/-- A path stands for no file twice. -/
theorem Yields.distinct {found : List Path} (hfs : fs.IsTree) (h : Yields fs p found) :
    Path.Distinct found := by
  cases h with
  | missing => exact Path.Distinct.nil
  | special => exact Path.Distinct.nil
  | source => exact List.nodup_singleton _
  | other => exact Path.Distinct.nil
  -- paths below one directory are the same only if their names are
  | directory h hat hsorted hmem =>
    rw [Path.Distinct, List.map_map]
    refine List.Nodup.map_on (fun a ha b hb heq => ?_)
      (hsorted.imp fun hlt heq => (ne_of_lt hlt) (congrArg bytesOf heq))
    have hdir := FileSystem.ne_empty_of_locate? h
    rw [Function.comp_apply, Function.comp_apply,
      components_pathBelow hdir (((hmem a).1 ha).isPlain hfs),
      components_pathBelow hdir (((hmem b).1 hb).isPlain hfs)] at heq
    exact List.map_injective_iff.2 (fun _ _ h => Path.Component.name.inj h)
      (List.append_cancel_left heq)

/-- Whatever is found is a file. -/
theorem Yields.isFile {found : List Path} (hfs : fs.IsTree) (h : Yields fs p found) :
    ∀ file ∈ found, fs.isFile file = true := by
  cases h with
  | missing => simp
  | special => simp
  | source h => simp [FileSystem.isFile, h]
  | other => simp
  | directory h hat hsorted hmem =>
    refine List.forall_mem_map.2 fun names hnames => ?_
    have hfound := (hmem names).1 hnames
    obtain ⟨content, hfile⟩ := hfound.isFile
    -- the path to it leads there, for the names are below the directory
    have hlocate := FileSystem.locate?_along (hfound.isPlain hfs) (by rw [hfile]; simp) h
    rw [FileSystem.isFile, FileSystem.entry?, pathBelow_eq, hlocate, Option.bind_some, hfile]

/-! ## Paths made absolute -/

/-- A path is made absolute by its steps from the root or from the working directory, and a slash at
its end stays. -/
theorem resolved_eq (hne : p.text ≠ "") :
    resolved fs p =
      let full := (if p.IsRooted then p.rootOf else fs.workingDirectory).along p.steps
      if p.endsWithSlash then full.join ⟨""⟩ else full := by
  rw [resolved, Path.absolute?_eq hne, Option.getD_some]

theorem resolved_empty (hempty : p.text = "") : resolved fs p = p := by
  rw [resolved, Path.absolute?, if_pos (by simp [hempty]), Option.getD_none]

section

variable (hroot : fs.workingDirectory.IsRooted) (hne : p.text ≠ "")
include hroot hne

theorem isRooted_resolved : (resolved fs p).IsRooted := by
  -- the steps of a path lead away from a root
  have hfull : ((if p.IsRooted then p.rootOf else fs.workingDirectory).along p.steps).IsRooted := by
    rw [Path.isRooted_along fun c => Path.isPlain_of_mem_steps]
    split
    · exact p.rootOf_spec.1
    · exact hroot
  rw [resolved_eq hne]
  dsimp only
  split
  · exact (Path.isRooted_join (by decide)).2 hfull
  · exact hfull

/-- The absolute path has the same steps. -/
theorem stepsFrom_resolved : fs.stepsFrom (resolved fs p) = fs.stepsFrom p := by
  -- steps that have been taken once are taken again
  have hfull : ((if p.IsRooted then p.rootOf else fs.workingDirectory).along p.steps).steps =
      fs.stepsFrom p := by
    rw [Path.steps_along fun c => Path.isPlain_of_mem_steps, FileSystem.stepsFrom]
    split
    · rw [p.rootOf_spec.2, List.nil_append]
    · rfl
  rw [FileSystem.stepsFrom, if_pos (isRooted_resolved hroot hne), resolved_eq hne]
  dsimp only
  split
  · rw [Path.steps_join (by decide), hfull]
    exact List.append_nil _
  · exact hfull

/-- To a directory the path leads if and only if the absolute path does. -/
theorem locate?_resolved_iff (hat : fs.at? place = some .directory) :
    fs.locate? (resolved fs p) = some place ↔ fs.locate? p = some place := by
  -- both paths have the same steps, and at a directory the steps are all that counts
  have hplace : fs.place? (resolved fs p) = fs.place? p := by
    rw [FileSystem.place?, stepsFrom_resolved hroot hne]
    rfl
  have hresolved : (resolved fs p).text ≠ "" := fun hempty => by
    have h := isRooted_resolved hroot hne
    rw [Path.IsRooted, hempty] at h
    cases h
  constructor
  · intro h
    exact FileSystem.locate?_of_place? hne (hplace ▸ FileSystem.place?_of_locate? h) hat
  · intro h
    exact FileSystem.locate?_of_place? hresolved (hplace ▸ FileSystem.place?_of_locate? h) hat

/-- If a step stands last in a path, it stands last in the absolute path. -/
theorem locate?_resolved_of_step {before : List (List Char)} {last : List Char} {c : Path.Component}
    (hpieces : Text.pieces '/' p.text.toList = before ++ [last])
    (hread : Path.Component.ofPiece? last = some c) :
    fs.locate? (resolved fs p) = fs.locate? p := by
  -- the path ends with a step, hence not with a slash
  have hslash : ¬p.endsWithSlash = true := fun h => by
    rw [(Path.endsWithSlash_iff hpieces hne).1 h] at hread
    cases hread
  have hsteps : p.steps = before.filterMap Path.Component.ofPiece? ++ [c] := by
    rw [Path.steps, Path.following, hpieces, List.filterMap_append,
      List.filterMap_cons_some hread, List.filterMap_nil]
  have hplain : c.IsPlain :=
    Path.isPlain_of_mem_steps (hsteps ▸ List.mem_append_right _ List.mem_cons_self)
  have hsame := stepsFrom_resolved hroot hne
  rw [resolved_eq hne] at hsame ⊢
  dsimp only at hsame ⊢
  rw [if_neg hslash, hsteps, Path.along_concat] at hsame ⊢
  rw [FileSystem.locate?_eq_place? hpieces hread, FileSystem.place?, ← hsame,
    FileSystem.locate?_join hplain, ← FileSystem.place?_join hplain]
  rfl

/-- If a slash stands at the end of both, both lead to nothing but directories. -/
theorem locate?_resolved_of_slash {before : List (List Char)}
    (hpieces : Text.pieces '/' p.text.toList = before ++ [[]]) :
    fs.locate? (resolved fs p) = fs.locate? p := by
  have hblank : ¬(⟨""⟩ : Path).IsRooted := by decide
  obtain ⟨before', hpieces', -⟩ := Path.pieces_join
    ((if p.IsRooted then p.rootOf else fs.workingDirectory).along p.steps) hblank
  have hresolved : Text.pieces '/' (resolved fs p).text.toList = before' ++ [[]] := by
    rw [resolved_eq hne]
    dsimp only
    rw [if_pos ((Path.endsWithSlash_iff hpieces hne).2 rfl), hpieces']
    rfl
  -- a path with a slash at its end leads to directories only
  ext place
  constructor
  · intro h
    exact (locate?_resolved_iff hroot hne (FileSystem.directory_of_blank hresolved rfl h)).1 h
  · intro h
    exact (locate?_resolved_iff hroot hne (FileSystem.directory_of_blank hpieces rfl h)).2 h

/-- The absolute path leads where the path leads, unless this ends in a `.`. -/
theorem locate?_resolved {before : List (List Char)} {last : List Char}
    (hpieces : Text.pieces '/' p.text.toList = before ++ [last]) (hlast : last ≠ ['.']) :
    fs.locate? (resolved fs p) = fs.locate? p := by
  cases hread : Path.Component.ofPiece? last with
  | some c => exact locate?_resolved_of_step hroot hne hpieces hread
  | none =>
    -- a piece that is no step is empty or a dot
    have hnil : last = [] := by
      unfold Path.Component.ofPiece? at hread
      split at hread
      · rfl
      · exact absurd rfl hlast
      · cases hread
      · cases hread
    exact locate?_resolved_of_slash hroot hne (hnil ▸ hpieces)

end

/-- What a path leads to its absolute path leads to. Where the path leads nowhere, the absolute
path leads nowhere either, unless the path is that of a file, or of what is no directory either,
with `/.` behind it. -/
theorem entry?_resolved (hroot : fs.workingDirectory.IsRooted) (p : Path) :
    (fs.entry? p ≠ none → fs.entry? (resolved fs p) = fs.entry? p) ∧
      (fs.entry? p = none → fs.entry? (resolved fs p) ≠ none →
        (Text.pieces '/' p.text.toList).getLast? = some ['.'] ∧
          fs.entry? (resolved fs p) ≠ some .directory) := by
  by_cases hne : p.text = ""
  · rw [resolved_empty hne]
    exact ⟨fun _ => rfl, fun hnone h => absurd hnone h⟩
  obtain ⟨before, last, hpieces⟩ :=
    (List.eq_nil_or_concat' _).resolve_left (Text.pieces_ne_nil '/' p.text.toList)
  by_cases hlast : last = ['.']
  · subst hlast
    constructor
    · intro h
      obtain ⟨entry, hentry⟩ := Option.ne_none_iff_exists'.1 h
      obtain ⟨place, hlocate, -⟩ := Option.bind_eq_some_iff.1 hentry
      have hat := FileSystem.directory_of_blank hpieces rfl hlocate
      rw [FileSystem.entry?, FileSystem.entry?, hlocate,
        (locate?_resolved_iff hroot hne hat).2 hlocate]
    · intro hnone h
      refine ⟨by rw [hpieces, List.getLast?_concat], fun hentry => ?_⟩
      -- where there is a directory, the path leads there as well
      obtain ⟨place, hlocate, hat⟩ := Option.bind_eq_some_iff.1 hentry
      rw [FileSystem.entry?, (locate?_resolved_iff hroot hne hat).1 hlocate, Option.bind_some,
        hat] at hnone
      cases hnone
  · have hsame : fs.entry? (resolved fs p) = fs.entry? p := by
      rw [FileSystem.entry?, locate?_resolved hroot hne hpieces hlast]
      rfl
    exact ⟨fun _ => hsame, fun hnone h => absurd (hsame.trans hnone) h⟩

/-! ## All paths -/

/-- What a further path yields comes behind the others, as far as it is new. -/
theorem collect_concat (hfs : fs.IsTree) (hwalker : fs.IsWalkedBy walker) (paths : List Path)
    (p : Path) :
    collect walker fs (paths ++ [p]) = collect walker fs paths ++
      (sourcesAt walker fs (resolved fs p)).filter fun file =>
        ∀ other ∈ collect walker fs paths, file.components ≠ other.components := by
  rw [collect, List.flatMap_append, List.flatMap_singleton,
    Path.dedup_append ((yields_sourcesAt hfs hwalker _).distinct hfs)]
  rfl

/-- **The source files that paths stand for.** No paths stand for no files, and one more path adds
the files that it yields, without those that are found already. Each path is made absolute first:
its names and `..` are put behind the root or the working directory, and a slash at its end is
kept. This changes nothing for a path that leads somewhere, and a path that leads nowhere still
yields nothing, unless it is that of a file with `/.` behind it. Whatever is found is a file. -/
theorem collect_exact (hfs : fs.IsTree) (hroot : fs.workingDirectory.IsRooted)
    (hwalker : fs.IsWalkedBy walker) :
    collect walker fs [] = [] ∧
    (∀ paths p, ∃ found, Yields fs (resolved fs p) found ∧
      collect walker fs (paths ++ [p]) = collect walker fs paths ++
        found.filter fun file =>
          ∀ other ∈ collect walker fs paths, file.components ≠ other.components) ∧
    (∀ p, p.text = "" → resolved fs p = p) ∧
    (∀ p, p.text ≠ "" → (resolved fs p).IsRooted ∧
      resolved fs p =
        let full := (if p.IsRooted then p.rootOf else fs.workingDirectory).along p.steps
        if p.endsWithSlash then full.join ⟨""⟩ else full) ∧
    (∀ p, fs.entry? p ≠ none → fs.entry? (resolved fs p) = fs.entry? p) ∧
    (∀ p, fs.entry? p = none → fs.entry? (resolved fs p) ≠ none →
      (Text.pieces '/' p.text.toList).getLast? = some ['.'] ∧
        fs.entry? (resolved fs p) ≠ some .directory) ∧
    ∀ paths, ∀ file ∈ collect walker fs paths, fs.isFile file = true := by
  have hyields := yields_sourcesAt hfs hwalker
  refine ⟨rfl, fun paths p => ⟨_, hyields _, collect_concat hfs hwalker paths p⟩,
    fun p => resolved_empty, fun p hne => ⟨isRooted_resolved hroot hne, resolved_eq hne⟩,
    fun p => (entry?_resolved hroot p).1, fun p => (entry?_resolved hroot p).2, fun paths => ?_⟩
  induction paths using List.reverseRecOn with
  | nil => simp [collect, Path.dedup]
  | append_singleton paths p ih =>
    rw [collect_concat hfs hwalker]
    intro file hfile
    -- a file was collected before, or the last path yields it
    rcases List.mem_append.1 hfile with hfile | hfile
    · exact ih file hfile
    · exact (hyields _).isFile hfs file (List.mem_of_mem_filter hfile)

/-- A hidden directory is walked if it is given, and so is one below it whose name is no text,
here a dot and the byte 255. What else is hidden below it is found only if it is given as well. -/
theorem collect_hidden_given :
    let fs : FileSystem :=
      { entries := [([".git", ".\x00\xff", "b.mts"], .file .binary),
          ([".git", ".c.js"], .file (.text "")),
          ([".git", "node_modules", "d.js"], .file (.text "")),
          ([".git", "e.js"], .special)]
        workingDirectory := ⟨"/.git"⟩ }
    fs.IsTree ∧ fs.workingDirectory.IsRooted ∧ fs.IsWalkedBy fs.walkFrom ∧
      collect fs.walkFrom fs [⟨"."⟩] = [⟨"/.git/.\x00\xff/b.mts"⟩] ∧
      (∃ found, Yields fs (resolved fs ⟨".c.js"⟩) found ∧
        collect fs.walkFrom fs ([⟨"."⟩] ++ [⟨".c.js"⟩]) = collect fs.walkFrom fs [⟨"."⟩] ++
          found.filter fun file =>
            ∀ other ∈ collect fs.walkFrom fs [⟨"."⟩], file.components ≠ other.components) ∧
      collect fs.walkFrom fs [⟨"."⟩, ⟨".c.js"⟩, ⟨"a/"⟩, ⟨"e.js"⟩] =
        [⟨"/.git/.\x00\xff/b.mts"⟩, ⟨"/.git/.c.js"⟩] := by
  intro fs
  have hfs : fs.IsTree := by unfold FileSystem.IsTree; decide +kernel
  have hroot : fs.workingDirectory.IsRooted := by decide
  have hwalker := fs.isWalkedBy_walkFrom
  exact ⟨hfs, hroot, hwalker, by decide +kernel,
    (collect_exact hfs hroot hwalker).2.1 [⟨"."⟩] ⟨".c.js"⟩, by decide +kernel⟩

/-- A path that leads nowhere can stand for a file: nothing is behind a file, but a `.` written
there is left out when the path is made absolute. -/
theorem collect_behind_file :
    let fs : FileSystem :=
      { entries := [(["w", "a.js"], .file (.text ""))]
        workingDirectory := ⟨"/w"⟩ }
    fs.IsTree ∧ fs.workingDirectory.IsRooted ∧ fs.entry? ⟨"a.js/."⟩ = none ∧
      collect fs.walkFrom fs [⟨"a.js/."⟩] = [⟨"/w/a.js"⟩] := by
  unfold FileSystem.IsTree
  decide +kernel

end Discovery

end CallFlow
