import CallFlow.Module.Resolution
import CallFlow.Proofs.Path.Place
import Mathlib.Algebra.Group.Nat.Even

/-!
# Where normalised paths lead

`Path.normalize` keeps names as they are and takes out what cancels, but a `..` also removes one
that was kept before it, and the first `..` behind the root is kept. So of the `..` that nothing
cancels it leaves none if their number is even and one if it is odd: `normalize_exact` says
this, and when it is the place that the path leads to. A module specifier is followed in this
way from the directory of its file.
-/

namespace CallFlow

namespace Path

/-! ## Two places for one path -/

namespace Place

/-- The place with the `..` that nothing cancels taken out in pairs. -/
def folded (place : Place) : Place :=
  { place with above := place.above % 2 }

/-- The place, where the directory above the root is the root. -/
def grounded (place : Place) : Place :=
  if place.absolute then { place with above := 0 } else place

/-- The result is right if no `..` removes one that was kept: below the root they go in pairs,
elsewhere there is one at most. -/
theorem folded_eq_grounded_iff (place : Place) :
    place.folded = place.grounded ↔
      if place.absolute then Even place.above else place.above ≤ 1 := by
  obtain ⟨absolute, above, names⟩ := place
  cases absolute with
  | false =>
    have hself :
        (⟨false, above % 2, names⟩ : Place) = ⟨false, above, names⟩ ↔ above % 2 = above := by
      simp
    exact hself.trans (by simp only [Bool.false_eq_true, if_false]; omega)
  | true =>
    have hzero : (⟨true, above % 2, names⟩ : Place) = ⟨true, 0, names⟩ ↔ above % 2 = 0 := by simp
    exact hzero.trans Nat.even_iff.symm

/-- One step of `normalize` keeps a folded place folded. -/
theorem stepNormal_components (place : Place) {c : Component} (h : c ≠ .root) :
    stepNormal place.folded.components.reverse c = (place.step c).folded.components.reverse := by
  cases c with
  | root => exact absurd rfl h
  | current => rfl
  -- a name goes behind the others
  | name s =>
    have hname : (place.step (.name s)).folded.components =
        place.folded.components ++ [.name s] := components_append_name place.folded s
    rw [hname, List.reverse_append]
    rfl
  | parent =>
    obtain ⟨absolute, above, names⟩ := place
    obtain rfl | ⟨before, s, rfl⟩ := names.eq_nil_or_concat'
    · -- no name is left: what stands last is the root, nothing, or the one `..` that was kept
      have hmore : (⟨absolute, above, []⟩ : Place).step .parent = ⟨absolute, above + 1, []⟩ := rfl
      -- `..` and `..` cancel, so that only their parity is left
      have hfolded (n : Nat) : (⟨absolute, n, []⟩ : Place).folded = ⟨absolute, n % 2, []⟩ := rfl
      rw [hmore, hfolded, hfolded]
      obtain heven | hodd := Nat.mod_two_eq_zero_or_one above
      · rw [heven, show (above + 1) % 2 = 1 by omega]
        cases absolute <;> rfl
      · rw [hodd, show (above + 1) % 2 = 0 by omega]
        cases absolute <;> rfl
    -- a name is there to be taken off
    · have hname : (⟨absolute, above, before ++ [s]⟩ : Place).folded.components =
          (⟨absolute, above, before⟩ : Place).folded.components ++ [.name s] :=
        components_append_name (⟨absolute, above, before⟩ : Place).folded s
      rw [step_parent_append, hname, List.reverse_append]
      rfl

/-- The components are taken one by one. -/
theorem foldl_stepNormal (place : Place) {cs : List Component} (h : .root ∉ cs) :
    cs.foldl stepNormal place.folded.components.reverse =
      (place.walk cs).folded.components.reverse := by
  induction cs generalizing place with
  | nil => rfl
  | cons c cs ih =>
    obtain ⟨hc, hcs⟩ := List.ne_and_not_mem_of_not_mem_cons h
    rw [List.foldl_cons, stepNormal_components place (Ne.symm hc), ih _ hcs]
    rfl

/-- All names on the way come from the path. -/
theorem isPlain_of_mem_walk {cs : List Component}
    (hcs : ∀ c ∈ cs, c ≠ .root → c ≠ .current → c.IsPlain)
    {place : Place} (h : ∀ s ∈ place.names, (Component.name s).IsPlain) :
    ∀ s ∈ (place.walk cs).names, (Component.name s).IsPlain := by
  induction cs generalizing place with
  | nil => exact h
  | cons c cs ih =>
    refine ih (fun d hd => hcs d (List.mem_cons_of_mem c hd)) ?_
    cases c with
    | root => simp [step]
    | current => exact h
    | parent =>
      rw [step]
      split
      · exact h
      · exact fun s hs => h s (List.dropLast_subset _ hs)
    | name t =>
      intro s hs
      obtain hs | hs := List.mem_append.1 hs
      · exact h s hs
      · rw [List.mem_singleton.1 hs]
        exact hcs _ List.mem_cons_self (by simp) (by simp)

/-- The components of a place can be written. -/
theorem written_components {place : Place} (h : ∀ s ∈ place.names, (Component.name s).IsPlain) :
    Written place.components := by
  have hplain : ∀ c ∈ List.replicate place.above Component.parent ++
      place.names.map Component.name, c.IsPlain := fun c hc => by
    obtain hc | hc := List.mem_append.1 hc
    · rw [(List.mem_replicate.1 hc).2]
      exact Component.isPlain_parent
    · obtain ⟨s, hs, rfl⟩ := List.mem_map.1 hc
      exact h s hs
  rw [components]
  split
  · exact .absolute hplain
  · exact .relative hplain

end Place

/-! ## The normalised path -/

/-- The names of a place are names of the path. -/
theorem isPlain_of_mem_place (p : Path) : ∀ s ∈ p.place.names, (Component.name s).IsPlain := by
  obtain ⟨first, rest, hp, hplain, hfirst⟩ := p.exists_components
  refine Place.isPlain_of_mem_walk (fun c hc hroot hcurrent => ?_) (by simp)
  rw [hp] at hc
  obtain hc | hc := List.mem_append.1 hc
  · obtain rfl | rfl | rfl := hfirst
    · simp at hc
    · exact absurd (List.mem_singleton.1 hc) hroot
    · exact absurd (List.mem_singleton.1 hc) hcurrent
  · exact hplain c hc

/-- Normalising folds the place that the path leads to. -/
theorem normalComponents_eq (p : Path) : p.normalComponents = p.place.folded.components := by
  obtain ⟨first, rest, hp, hplain, hfirst⟩ := p.exists_components
  have hrest : .root ∉ rest := fun h => (hplain _ h).ne_root rfl
  rw [normalComponents, place, hp, List.foldl_append, Place.walk_append, List.reverse_eq_iff]
  obtain rfl | rfl | rfl := hfirst
  · exact Place.foldl_stepNormal {} hrest
  · exact Place.foldl_stepNormal { absolute := true } hrest
  · exact Place.foldl_stepNormal {} hrest

theorem written_normalComponents (p : Path) : Written p.normalComponents := by
  rw [normalComponents_eq]
  exact Place.written_components p.isPlain_of_mem_place

theorem components_normalize (p : Path) :
    p.normalize.components = p.place.folded.components := by
  rw [normalize, components_ofComponents p.written_normalComponents, normalComponents_eq]

/-! ## Text behind the last component -/

/-- The components with text written behind the last one. -/
def suffixed (suffix : String) (cs : List Component) : List Component :=
  match cs.getLast? with
  | none | some .root => cs ++ [.name suffix]
  | some c => cs.dropLast ++ [.name (c.text ++ suffix)]

theorem suffixed_append {suffix : String} {c : Component} (h : c ≠ .root) (cs : List Component) :
    suffixed suffix (cs ++ [c]) = cs ++ [.name (c.text ++ suffix)] := by
  rw [suffixed, List.getLast?_append, List.getLast?_singleton, Option.some_or, List.dropLast_concat]
  cases c with
  | root => exact absurd rfl h
  | current | parent | name => rfl

/-- Written components are the root alone or end in one that is read from its own text. -/
theorem Written.eq_root_or_append {cs : List Component} (h : Written cs) (hne : cs ≠ []) :
    cs = [.root] ∨ ∃ before c, cs = before ++ [c] ∧ c.IsPlain := by
  cases h with
  | relative h =>
    obtain rfl | ⟨before, c, rfl⟩ := cs.eq_nil_or_concat'
    · exact absurd rfl hne
    · exact .inr ⟨before, c, rfl, h c (List.mem_append_right _ List.mem_cons_self)⟩
  | @absolute cs h =>
    obtain rfl | ⟨before, c, rfl⟩ := cs.eq_nil_or_concat'
    · exact .inl rfl
    · exact .inr ⟨.root :: before, c, rfl, h c (List.mem_append_right _ List.mem_cons_self)⟩

theorem text_ofComponents {cs : List Component} (h : cs ≠ [.root]) :
    (ofComponents cs).text = "/".intercalate (cs.map Component.text) := by
  by_cases hne : cs = []
  · rw [hne]
    rfl
  · rw [ofComponents.eq_3 cs hne h]

/-- What is put behind the text goes to the last part. -/
theorem intercalate_append_last (sep : String) (texts : List String) (a b : String) :
    sep.intercalate (texts ++ [a]) ++ b = sep.intercalate (texts ++ [a ++ b]) := by
  by_cases h : texts = []
  · rw [h, List.nil_append, List.nil_append, String.intercalate_singleton,
      String.intercalate_singleton]
  · rw [String.intercalate_append_of_ne_nil h (by simp),
      String.intercalate_append_of_ne_nil h (by simp), String.intercalate_singleton,
      String.intercalate_singleton, String.append_assoc]

/-- Putting a suffix behind the text of a path puts it behind the last name. -/
theorem text_append {suffix : String} {cs : List Component} (h : Written cs) :
    (ofComponents cs).text ++ suffix = (ofComponents (suffixed suffix cs)).text := by
  -- an empty path becomes the suffix, and the root gets it as its only name
  by_cases hne : cs = []
  · rw [hne]
    have hname : [Component.name suffix] ≠ [.root] := by simp
    exact (String.empty_append.trans String.intercalate_singleton.symm).trans
      (text_ofComponents hname).symm
  · obtain rfl | ⟨before, c, rfl, hc⟩ := h.eq_root_or_append hne
    · have hname : [.root, Component.name suffix] ≠ [.root] := by simp
      have htext := text_ofComponents hname
      simp only [List.map_cons, List.map_nil, Component.text, String.intercalate_cons_cons,
        String.intercalate_singleton, String.empty_append] at htext
      exact htext.symm
    · have hlast (d : Component) (hd : d ≠ .root) : before ++ [d] ≠ [.root] := fun heq =>
        hd (by simpa using congrArg List.getLast? heq)
      rw [suffixed_append hc.ne_root, text_ofComponents (hlast c hc.ne_root),
        text_ofComponents (hlast (.name _) (by simp)), List.map_append, List.map_append]
      exact intercalate_append_last _ _ _ _

theorem Written.append {cs ds : List Component} (h : Written cs) (hds : ∀ c ∈ ds, c.IsPlain) :
    Written (cs ++ ds) := by
  cases h with
  | relative h => exact .relative fun c hc => (List.mem_append.1 hc).elim (h c) (hds c)
  | absolute h => exact .absolute fun c hc => (List.mem_append.1 hc).elim (h c) (hds c)

/-- What can be written can be cut off. -/
theorem Written.of_append {cs ds : List Component} (h : Written (cs ++ ds)) : Written cs := by
  cases cs with
  | nil => exact .relative nofun
  | cons c cs =>
    rw [List.cons_append] at h
    cases h with
    | relative h => exact .relative fun d hd => h d (List.mem_append_left ds hd)
    | absolute h => exact .absolute fun d hd => h d (List.mem_append_left ds hd)

/-- The suffix is long enough that the name is not `.` or `..`. -/
theorem Written.suffixed {suffix : String} {cs : List Component} (h : Written cs)
    (hslash : '/' ∉ suffix.toList) (hlength : 3 ≤ suffix.toList.length) :
    Written (suffixed suffix cs) := by
  have hsuffix : ∀ c ∈ [Component.name suffix], c.IsPlain := fun c hc => by
    rw [List.mem_singleton.1 hc]
    exact Component.isPlain_name hslash hlength
  by_cases hne : cs = []
  · rw [hne]
    exact .relative hsuffix
  · obtain rfl | ⟨before, c, rfl, hc⟩ := h.eq_root_or_append hne
    · exact .absolute hsuffix
    · rw [suffixed_append hc.ne_root]
      refine h.of_append.append fun d hd => ?_
      rw [List.mem_singleton.1 hd]
      refine Component.isPlain_name ?_ ?_
      · simpa [hslash] using hc.noSlash
      · simp only [String.toList_append, List.length_append]
        omega

end Path

/-! ## Following a specifier -/

namespace Module

open CallFlow.Path

/-- The place that a specifier in a file leads to, from the directory of the file. -/
def leads (file : Path) (specifier : String) : Path.Place :=
  ({} : Path.Place).walk (file.components.dropLast ++ (⟨specifier⟩ : Path).components)

/-- The components of the files where a module with these components may be found, in the order
in which they are tried. -/
def probes (cs : List Component) : List (List Component) :=
  cs :: (extensions.map fun ext => suffixed ("." ++ ext) cs) ++
    extensions.map fun ext => cs ++ [.name ("index." ++ ext)]

/-- The last known file with these components. -/
def KnownFiles.lastAt (known : KnownFiles) (cs : List Component) : Option Nat :=
  (known.reverse.find? fun entry => entry.1.components = cs).map Prod.snd

/-! ### The places that are tried -/

/-- The extensions of modules have no slash, and more than two characters with the dot. -/
theorem extension_plain {ext : String} (h : ext ∈ extensions) :
    ('/' ∉ ("." ++ ext).toList ∧ 3 ≤ ("." ++ ext).toList.length) ∧
      '/' ∉ ("index." ++ ext).toList ∧ 3 ≤ ("index." ++ ext).toList.length := by
  revert ext
  decide +kernel

section

variable {s : String} (hs : (Component.name s).IsPlain)
include hs

theorem following_of_isPlain : following s.toList = [.name s] := by
  have hread : Component.ofPiece? s.toList = some (.name s) := hs.reads
  have hslash : '/' ∉ s.toList := hs.noSlash
  rw [following, Text.pieces_eq_splitOn, List.splitOn_eq_singleton hslash,
    List.filterMap_cons_some hread, List.filterMap_nil]

/-- A name is one component. -/
theorem components_of_isPlain : (⟨s⟩ : Path).components = [.name s] := by
  have hwritten : Written [.name s] := .relative fun d hd => List.mem_singleton.1 hd ▸ hs
  have htext : (ofComponents [.name s]).text = s := by
    rw [text_ofComponents (by simp)]
    exact String.intercalate_singleton
  rw [← components_ofComponents hwritten]
  exact congrArg (fun text => (⟨text⟩ : Path).components) htext.symm

/-- Joined to a path it is the last component. -/
theorem components_join_name {cs : List Component} (h : Written cs) :
    ((ofComponents cs).join ⟨s⟩).components = cs ++ [.name s] := by
  have hhead : (⟨s⟩ : Path).text.toList.head? ≠ some '/' := fun heq =>
    hs.noSlash (List.mem_of_head? heq)
  by_cases hbase : (ofComponents cs).text = ""
  · have hcs : cs = [] := by
      have hempty : ofComponents cs = ⟨""⟩ := congrArg Path.mk hbase
      rw [← components_ofComponents h, hempty]
      rfl
    rw [join_of_empty hbase, components_of_isPlain hs, hcs, List.nil_append]
  · rw [components_join hhead hbase, components_ofComponents h, following_of_isPlain hs]

end

/-- The candidates are the path, the path with each extension, and the index files below it. -/
theorem components_candidates {cs : List Component} (h : Written cs) :
    (candidates (ofComponents cs)).map Path.components = probes cs := by
  rw [candidates, probes, List.cons_append, List.cons_append, List.map_cons, List.map_append,
    List.map_map, List.map_map, components_ofComponents h]
  refine congrArg (cs :: ·) (congrArg₂ (· ++ ·) ?_ ?_)
  · refine List.map_congr_left fun ext hext => ?_
    obtain ⟨⟨hslash, hlength⟩, -⟩ := extension_plain hext
    rw [Function.comp_apply, String.append_assoc, text_append h]
    exact components_ofComponents (h.suffixed hslash hlength)
  · refine List.map_congr_left fun ext hext => ?_
    obtain ⟨-, hslash, hlength⟩ := extension_plain hext
    exact components_join_name (Component.isPlain_name hslash hlength) h

/-! ### The place of a specifier -/

/-- A relative specifier starts with a dot. -/
theorem exists_of_isRelative {specifier : String} (h : isRelative specifier = true) :
    ∃ more, specifier.toList = '.' :: more := by
  simp only [isRelative, Bool.or_eq_true, decide_eq_true_eq, List.isPrefixOf_iff_prefix] at h
  obtain ((rfl | rfl) | ⟨more, h⟩) | ⟨more, h⟩ := h
  · exact ⟨_, rfl⟩
  · exact ⟨_, rfl⟩
  · exact ⟨_, h.symm⟩
  · exact ⟨_, h.symm⟩

/-- Behind a directory a specifier leads where it leads on its own, unless this is the root. -/
theorem walk_following {specifier : String} {c : Char} {more : List Char}
    (h : specifier.toList = c :: more) (hc : c ≠ '/') (place : Path.Place) :
    place.walk (following specifier.toList) = place.walk (⟨specifier⟩ : Path).components := by
  obtain ⟨piece, rest, hpieces⟩ := List.exists_cons_of_ne_nil (Text.pieces_ne_nil '/' more)
  have hfirst : Text.pieces '/' (⟨specifier⟩ : Path).text.toList = (c :: piece) :: rest := by
    rw [h, Text.pieces, if_neg hc, hpieces]
  rw [components_eq hfirst (.inl (List.cons_ne_nil _ _)), following, hfirst]
  -- a `.` in front leads nowhere, whether it is read or not
  unfold leading
  split
  next heq => cases heq
  next heq =>
    rw [heq, List.filterMap_cons_none rfl]
    rfl
  next =>
    rw [List.filterMap_cons]
    cases Component.ofPiece? (c :: piece) <;> rfl

/-- A specifier leads on from the directory of the file. -/
theorem place_join {file : Path} {specifier : String} (h : isRelative specifier = true) :
    ((directoryOf file).join ⟨specifier⟩).place = leads file specifier := by
  obtain ⟨more, hdot⟩ := exists_of_isRelative h
  have hdirectory : (directoryOf file).components = file.components.dropLast :=
    components_parent? file
  rw [leads, ← hdirectory, place]
  -- a file in no directory resolves against nothing
  by_cases hbase : (directoryOf file).text = ""
  · have hempty : directoryOf file = ⟨""⟩ := congrArg Path.mk hbase
    rw [join_of_empty hbase, hempty]
    rfl
  · rw [components_join (by simp [hdot]) hbase, Path.Place.walk_append, Path.Place.walk_append,
      walk_following hdot (by decide)]

/-- A relative specifier is looked up at the candidates of the place that it leads to. -/
theorem resolve_eq (known : KnownFiles) (file : Path) (specifier : String) :
    resolve known file specifier =
      if isRelative specifier then
        (probes (leads file specifier).folded.components).findSome? known.lastAt
      else none := by
  rw [resolve]
  split
  next h =>
    have hwritten := ((directoryOf file).join ⟨specifier⟩).written_normalComponents
    have hcandidates := components_candidates hwritten
    rw [normalComponents_eq, place_join h] at hcandidates
    rw [← hcandidates, List.findSome?_map, target, Path.normalize, normalComponents_eq,
      place_join h]
    rfl
  next => rfl

end Module

/-- What normalising does to every path. The place of the path is what its names leave when each
cancels with a `..` behind it. The normalised path has no `.` and no name before a `..`; it leads
to the same place except that the `..` which nothing cancels are taken out in pairs. So it leads
to the place of the path, with the directory above the root read as the root, exactly if an
absolute path climbs above the root an even number of times and a relative one climbs at most
once. A specifier finds what is first known at the places tried from where it leads, folded in
the same way. -/
theorem Path.normalize_exact (p : Path) :
    (∀ q : Place, Cancels p.components q.components ↔ p.place = q) ∧
      p.normalize.components = p.place.folded.components ∧
      (.current ∉ p.normalize.components ∧
        ∀ s, ¬[.name s, .parent] <:+: p.normalize.components) ∧
      (p.normalize.components = p.place.grounded.components ↔
        if p.place.absolute then Even p.place.above else p.place.above ≤ 1) ∧
      ∀ known specifier, Module.resolve known p specifier =
        if Module.isRelative specifier then
          (Module.probes (Module.leads p specifier).folded.components).findSome? known.lastAt
        else none := by
  refine ⟨p.cancels_place_iff, p.components_normalize, ?_, ?_, fun known specifier =>
    Module.resolve_eq known p specifier⟩
  · rw [p.components_normalize]
    exact ⟨Place.current_notMem_components _, Place.not_name_parent_infix _⟩
  · rw [p.components_normalize, ← Place.folded_eq_grounded_iff]
    exact ⟨Place.components_injective, fun h => h ▸ rfl⟩

example : (⟨"/p/src/./lib/../util.js"⟩ : Path).normalize = ⟨"/p/src/util.js"⟩ := by
  decide +kernel

end CallFlow
