import CallFlow.Config
import CallFlow.Proofs.FileSystem.Places
import Mathlib.Data.List.Infix

/-!
# Where a configuration is looked for

The search for a configuration takes the last step off the path again and again. So it looks at the
places that the path leads through, the last one first (`FileSystem.passed`), and it ends where the
path starts: at the root, or in the working directory. Without a `..` these places are the directory
that is asked for and those above it. A `..` is taken off like a name, and the search goes back down
to the directory that it left.
-/

namespace CallFlow

namespace FileSystem

variable {fs : FileSystem}

/-! ## The places on a path -/

/-- The place that a path is followed from: the root or the working directory. -/
def start? (fs : FileSystem) (p : Path) : Option (List String) :=
  if p.IsRooted then some [] else fs.steps? [] fs.workingDirectory.steps

theorem place?_eq (fs : FileSystem) (p : Path) :
    fs.place? p = (fs.start? p).bind (fs.steps? · p.steps) := by
  rw [place?, stepsFrom, start?]
  split
  · rfl
  · exact steps?_append [] _ _

/-- The places that steps lead through, the last one first, as far as they can be followed. -/
def passed (fs : FileSystem) : List String → List Path.Component → List (List String)
  | here, [] => [here]
  | here, c :: cs =>
    (if fs.at? here = some .directory then fs.passed (stepTo here c) cs else []) ++ [here]

/-- The last step leads to one more place. -/
theorem passed_append (here : List String) (cs : List Path.Component) (c : Path.Component) :
    fs.passed here (cs ++ [c]) = (fs.steps? here (cs ++ [c])).toList ++ fs.passed here cs := by
  induction cs generalizing here with
  | nil =>
    rw [List.nil_append, steps?_singleton, passed, passed, passed]
    split <;> rfl
  | cons d cs ih =>
    rw [List.cons_append, passed, passed, steps?]
    split
    · rw [ih, List.append_assoc]
    · rfl

/-- A place, and behind it the places that are passed without the last step. -/
theorem passed_eq (here : List String) (cs : List Path.Component) :
    fs.passed here cs = (fs.steps? here cs).toList ++
      if cs = [] then [] else fs.passed here cs.dropLast := by
  obtain rfl | ⟨before, c, rfl⟩ := cs.eq_nil_or_concat'
  · rfl
  · rw [if_neg (by simp), List.dropLast_concat]
    exact passed_append here before c

/-! ## The places above a place -/

/-- A place and those above it, up to the root. -/
def ancestors (place : List String) : List (List String) := place.inits.reverse

theorem ancestors_append (place : List String) (s : String) :
    ancestors (place ++ [s]) = (place ++ [s]) :: ancestors place := by
  simp [ancestors, List.inits_append]

theorem mem_ancestors {above place : List String} : above ∈ ancestors place ↔ above <+: place := by
  rw [ancestors, List.mem_reverse, List.mem_inits]

/-- A place comes first, and behind it the places above the directory that it is in. -/
theorem ancestors_eq (place : List String) :
    ancestors place = place :: if place = [] then [] else ancestors place.dropLast := by
  obtain rfl | ⟨above, s, rfl⟩ := place.eq_nil_or_concat'
  · rfl
  · rw [if_neg (by simp), List.dropLast_concat, ancestors_append]

/-- A place and those above it, up to a place above. -/
def ancestorsUpTo (top place : List String) : List (List String) :=
  (ancestors place).filter top.isPrefixOf

theorem ancestorsUpTo_nil (place : List String) : ancestorsUpTo [] place = ancestors place :=
  List.filter_eq_self.2 fun _ _ => List.isPrefixOf_iff_prefix.2 List.nil_prefix

/-- From a place up to itself only the place is met. -/
theorem ancestorsUpTo_self (top : List String) : ancestorsUpTo top top = [top] := by
  have hself : top.isPrefixOf top = true := List.isPrefixOf_iff_prefix.2 (List.prefix_refl top)
  obtain rfl | ⟨above, s, rfl⟩ := top.eq_nil_or_concat'
  · rfl
  · rw [ancestorsUpTo, ancestors_append, List.filter_cons_of_pos hself]
    refine congrArg _ (List.filter_eq_nil_iff.2 fun place hplace hbelow => ?_)
    have hlength := (List.isPrefixOf_iff_prefix.1 hbelow).length_le.trans
      (mem_ancestors.1 hplace).length_le
    rw [List.length_append, List.length_singleton] at hlength
    omega

/-- One name more is one place more. -/
theorem ancestorsUpTo_append (top names : List String) (s : String) :
    ancestorsUpTo top (top ++ (names ++ [s])) =
      (top ++ (names ++ [s])) :: ancestorsUpTo top (top ++ names) := by
  rw [ancestorsUpTo, ← List.append_assoc, ancestors_append, List.filter_cons_of_pos]
  · rfl
  · rw [List.append_assoc]
    exact List.isPrefixOf_iff_prefix.2 (List.prefix_append _ _)

/-- Of the places passed the first one that `p` accepts is the nearest one above the place that the
steps lead to, if `p` accepts no other on the way and none that the way does not lead through. -/
theorem find?_passed {start place : List String} {cs : List Path.Component} (hroot : .root ∉ cs)
    (hplace : fs.steps? start cs = some place) {p : List String → Bool}
    (hbeside : ∀ q ∈ fs.passed start cs, p q = true → q <+: place)
    (habove : ∀ q, q <+: place → p q = true → q ∈ fs.passed start cs) :
    (fs.passed start cs).find? p = (ancestors place).find? p := by
  induction cs using List.reverseRecOn generalizing place with
  | nil =>
    obtain rfl : start = place := Option.some.inj hplace
    by_cases hp : p start = true
    · rw [ancestors_eq, List.find?_cons_of_pos hp]
      exact List.find?_cons_of_pos hp
    · have hnone : (ancestors start).find? p = none :=
        List.find?_eq_none.2 fun q hq hpq =>
          hp (List.mem_singleton.1 (habove q (mem_ancestors.1 hq) hpq) ▸ hpq)
      exact (List.find?_cons_of_neg hp).trans hnone.symm
  | append_singleton cs c ih =>
    have hpassed : fs.passed start (cs ++ [c]) = place :: fs.passed start cs := by
      rw [passed_append, hplace]
      rfl
    rw [hpassed] at hbeside habove ⊢
    by_cases hp : p place = true
    · rw [ancestors_eq, List.find?_cons_of_pos hp, List.find?_cons_of_pos hp]
    · rw [steps?_append] at hplace
      obtain ⟨here, hhere, hlast⟩ := Option.bind_eq_some_iff.1 hplace
      rw [steps?_singleton] at hlast
      split at hlast
      case isFalse => cases hlast
      obtain rfl : stepTo here c = place := Option.some.inj hlast
      -- what `p` accepts is not the new place
      have hnew {q : List String} (hq : q <+: stepTo here c) (hpq : p q = true) :
          q ∈ fs.passed start cs :=
        (List.mem_cons.1 (habove q hq hpq)).resolve_left fun heq => hp (heq ▸ hpq)
      have hold {q : List String} (hq : q ∈ fs.passed start cs) (hpq : p q = true) :
          q <+: stepTo here c := hbeside q (List.mem_cons_of_mem _ hq) hpq
      have hmem : here ∈ fs.passed start cs := by
        rw [passed_eq, hhere]
        exact List.mem_cons_self
      have hcs : .root ∉ cs := fun h => hroot (List.mem_append_left _ h)
      rw [List.find?_cons_of_neg hp]
      cases c with
      | root => exact absurd (List.mem_append_right _ List.mem_cons_self) hroot
      | current => exact ih hcs hhere (fun q => hold) fun q => hnew
      | name s =>
        have hleft : ¬p (here ++ [s]) = true := hp
        rw [stepTo, ancestors_append, List.find?_cons_of_neg hleft]
        refine ih hcs hhere (fun q hq hpq => ?_) fun q hq hpq =>
          hnew (hq.trans (List.prefix_append _ _)) hpq
        exact (List.prefix_concat_iff.1 (hold hq hpq)).resolve_left fun heq => hleft (heq ▸ hpq)
      | parent =>
        have hbelow : stepTo here .parent <+: here := List.dropLast_prefix here
        have hfind := ih hcs hhere (fun q hq hpq => (hold hq hpq).trans hbelow) fun q hq hpq => by
          obtain rfl | ⟨above, s, rfl⟩ := here.eq_nil_or_concat'
          · exact hnew hq hpq
          · obtain rfl | hq := List.prefix_concat_iff.1 hq
            · exact hmem
            · exact hnew (by rwa [stepTo, List.dropLast_concat]) hpq
        rw [hfind]
        obtain rfl | ⟨above, s, rfl⟩ := here.eq_nil_or_concat'
        · rfl
        · have hleft : ¬p (above ++ [s]) = true := fun hpq => by
            have hlength := (hold hmem hpq).length_le
            rw [stepTo, List.dropLast_concat, List.length_append, List.length_singleton] at hlength
            omega
          rw [ancestors_append, List.find?_cons_of_neg hleft, stepTo, List.dropLast_concat]

/-- From the root the way leads through all places above the one it leads to. -/
theorem mem_passed_of_prefix {place q : List String} {cs : List Path.Component}
    (hplace : fs.steps? [] cs = some place) (hq : q <+: place) : q ∈ fs.passed [] cs := by
  induction cs using List.reverseRecOn generalizing place with
  | nil =>
    obtain rfl : [] = place := Option.some.inj hplace
    exact List.mem_singleton.2 (List.prefix_nil.1 hq)
  | append_singleton cs c ih =>
    rw [passed_append, hplace]
    rw [steps?_append] at hplace
    obtain ⟨here, hhere, hlast⟩ := Option.bind_eq_some_iff.1 hplace
    rw [steps?_singleton] at hlast
    split at hlast
    case isFalse => cases hlast
    obtain rfl : stepTo here c = place := Option.some.inj hlast
    refine List.mem_cons.2 ?_
    -- a step upwards leads to a place that has been passed before, and a name goes on from it
    cases c with
    | root => exact .inl (List.prefix_nil.1 hq)
    | current => exact .inr (ih hhere hq)
    | parent => exact .inr (ih hhere (hq.trans (List.dropLast_prefix here)))
    | name s => exact (List.prefix_concat_iff.1 hq).imp_right (ih hhere)

/-! ## Names only -/

/-- Names alone lead straight down. -/
theorem eq_of_steps?_names {start place names : List String}
    (h : fs.steps? start (names.map .name) = some place) : place = start ++ names := by
  induction names generalizing start with
  | nil => rw [List.append_nil]; exact (Option.some.inj h).symm
  | cons s names ih =>
    rw [List.map_cons, steps?] at h
    split at h
    · rw [ih h, stepTo, List.append_assoc, List.singleton_append]
    · cases h

/-- Names lead to a place that exists. -/
theorem steps?_names {start names : List String} (h : fs.at? (start ++ names) ≠ none) :
    fs.steps? start (names.map .name) = some (start ++ names) := by
  induction names generalizing start with
  | nil => rw [List.append_nil]; rfl
  | cons s names ih =>
    have happend : start ++ s :: names = stepTo start (.name s) ++ names := by simp [stepTo]
    rw [List.map_cons, steps?, if_pos (directory_above h (List.cons_ne_nil s names)), happend]
    exact ih (happend ▸ h)

end FileSystem

namespace Config

open FileSystem

variable {fs : FileSystem}

/-! ## The search -/

/-- Whether a configuration stands in the directory at a place. -/
def standsIn (fs : FileSystem) (place : List String) : Bool :=
  (fs.at? (place ++ [fileName])).isSome

theorem fileName_isPlain : (Path.Component.name fileName).IsPlain :=
  Path.Component.isPlain_name (by decide) (by decide)

theorem locate?_fileName (fs : FileSystem) (dir : Path) :
    fs.locate? (dir.join ⟨fileName⟩) = (fs.place? dir).bind fun here =>
      if fs.at? here = some .directory then some (here ++ [fileName]) else none :=
  locate?_join fileName_isPlain fs dir

/-- A configuration is found in a directory if one stands at the place of the directory. -/
theorem contains_join (fs : FileSystem) (dir : Path) :
    fs.contains (dir.join ⟨fileName⟩) = (fs.place? dir).any (standsIn fs) := by
  rw [FileSystem.contains, entry?, locate?_fileName]
  cases fs.place? dir with
  | none => rfl
  | some here =>
    rw [Option.bind_some, Option.any_some, standsIn]
    split
    · rfl
    next hnot =>
      cases hat : fs.at? (here ++ [fileName]) with
      -- nothing stands there
      | none => rfl
      | some entry =>
        -- what has a file in it is a directory
        exact absurd (directory_above (by simp [hat]) (List.cons_ne_nil fileName [])) hnot

/-- Where the file stands the path to it leads. -/
theorem locate?_join_of_standsIn {dir : Path} {here : List String}
    (hplace : fs.place? dir = some here)
    (h : standsIn fs here = true) :
    fs.locate? (dir.join ⟨fileName⟩) = some (here ++ [fileName]) := by
  have hdirectory : fs.at? here = some .directory :=
    directory_above (Option.isSome_iff_ne_none.1 h) (List.cons_ne_nil fileName [])
  rw [locate?_fileName, hplace, Option.bind_some, if_pos hdirectory]

section

variable {dir : Path} {start : List String} (hstart : fs.start? dir = some start)
include hstart

theorem steps?_of_start? : fs.steps? start dir.steps = fs.place? dir := by
  rw [place?_eq, hstart, Option.bind_some]

theorem find?_passed_of_standsIn {here : List String} (hplace : fs.place? dir = some here)
    (h : standsIn fs here = true) :
    (fs.passed start dir.steps).find? (standsIn fs) = some here := by
  rw [passed_eq, steps?_of_start? hstart, hplace]
  exact List.find?_cons_of_pos h

/-- Where no configuration stands, the search goes on without the last step. -/
theorem find?_passed_of_not (h : (fs.place? dir).any (standsIn fs) = false) :
    (fs.passed start dir.steps).find? (standsIn fs) =
      if dir.steps = [] then none
      else (fs.passed start dir.steps.dropLast).find? (standsIn fs) := by
  have hskip : (fs.place? dir).toList.find? (standsIn fs) = none := by
    cases hplace : fs.place? dir with
    | none => rfl
    | some here =>
      rw [hplace, Option.any_some] at h
      exact List.find?_cons_of_neg (by simp [h])
  rw [passed_eq, steps?_of_start? hstart, List.find?_append, hskip, Option.none_or]
  split <;> rfl

end

theorem findFrom_of_found {dir : Path} (h : (fs.place? dir).any (standsIn fs) = true) (n : Nat) :
    findFrom fs n dir = some (dir.join ⟨fileName⟩) := by
  rw [findFrom.eq_def]
  exact if_pos ((contains_join fs dir).trans h)

/-- Otherwise it takes the last component off the path, as long as there is one. -/
theorem findFrom_of_not {dir : Path} (h : (fs.place? dir).any (standsIn fs) = false) (n : Nat) :
    findFrom fs n dir = if n = 0 then none else dir.parent?.bind (findFrom fs (n - 1)) := by
  have hmissing : ¬fs.contains (dir.join ⟨fileName⟩) = true := by simp [contains_join, h]
  rw [findFrom.eq_def]
  refine (if_neg hmissing).trans ?_
  cases n <;> cases dir.parent? <;> rfl

/-- The search ends at the first of the places passed where a configuration stands. -/
theorem findFrom_eq {dir : Path} {start : List String} (hstart : fs.start? dir = some start)
    (n : Nat) (hn : dir.steps.length ≤ n) :
    (findFrom fs n dir).map fs.locate? =
      ((fs.passed start dir.steps).find? (standsIn fs)).map fun place =>
        some (place ++ [fileName]) := by
  cases hfound : (fs.place? dir).any (standsIn fs) with
  | true =>
    obtain ⟨here, hplace, hstands⟩ := (Option.any_eq_true _ _).1 hfound
    rw [findFrom_of_found hfound, find?_passed_of_standsIn hstart hplace hstands,
      Option.map_some, locate?_join_of_standsIn hplace hstands, Option.map_some]
  | false =>
    rw [findFrom_of_not hfound, find?_passed_of_not hstart hfound]
    cases n with
    | zero =>
      rw [if_pos rfl, if_pos (List.eq_nil_of_length_eq_zero (Nat.le_zero.1 hn))]
      rfl
    | succ n =>
      rw [if_neg n.succ_ne_zero]
      obtain ⟨hnone, hsteps⟩ | ⟨above, habove, hsteps, hrooted⟩ := dir.parent?_spec
      · rw [hnone, if_pos hsteps]
        rfl
      · have hstart' : fs.start? above = some start := by
          simpa only [start?, hrooted] using hstart
        have hlength : above.steps.length ≤ n := by
          rw [hsteps, List.length_dropLast]
          omega
        rw [habove, Option.bind_some, Nat.add_sub_cancel, findFrom_eq hstart' n hlength, hsteps]
        split
        next hnil =>
          -- above a path without steps the search looks at the same place again
          have hnot : standsIn fs start = false := by
            rw [← steps?_of_start? hstart, hnil] at hfound
            exact hfound
          rw [hnil]
          exact congrArg _ (List.find?_cons_of_neg (by simp [hnot]))
        next => rfl

/-- The file that is looked for is the first one on the way. -/
theorem find?_eq {dir : Path} {start : List String} (hstart : fs.start? dir = some start) :
    (find? fs dir).map fs.locate? =
      ((fs.passed start dir.steps).find? (standsIn fs)).map fun place =>
        some (place ++ [fileName]) :=
  findFrom_eq hstart _ dir.length_steps_le

/-! ## What is found -/

/-- What is found for a directory: the file in the directory at a place, or nothing. -/
def Finds (fs : FileSystem) (dir : Path) (found : Option (List String)) : Prop :=
  (find? fs dir).map fs.locate? = found.map fun place => some (place ++ [fileName])

/-- The nearest place with a configuration, of a place and those above it. -/
def nearest? (fs : FileSystem) (place : List String) : Option (List String) :=
  (ancestors place).find? (standsIn fs)

/-- Where only names are passed the places passed are those between the start and the end. -/
theorem find?_passed_names (start names : List String) :
    (fs.passed start (names.map .name)).find? (standsIn fs) =
      (ancestorsUpTo start (start ++ names)).find? (standsIn fs) := by
  induction names using List.reverseRecOn with
  | nil =>
    rw [List.append_nil, ancestorsUpTo_self]
    rfl
  | append_singleton names s ih =>
    rw [ancestorsUpTo_append, List.map_append, List.map_singleton, passed_append]
    have hmap : names.map Path.Component.name ++ [.name s] = (names ++ [s]).map .name := by simp
    -- either the file stands at the end, or the search goes on above
    by_cases hstands : standsIn fs (start ++ (names ++ [s])) = true
    · have hdirectory : fs.at? (start ++ (names ++ [s])) = some .directory :=
        directory_above (Option.isSome_iff_ne_none.1 hstands) (List.cons_ne_nil fileName [])
      rw [hmap, steps?_names (by simp [hdirectory]), List.find?_cons_of_pos hstands]
      exact List.find?_cons_of_pos hstands
    · rw [List.find?_cons_of_neg hstands, ← ih, hmap]
      -- a path that leads nowhere has no file at its end either
      cases hplace : fs.steps? start ((names ++ [s]).map .name) with
      | none => rfl
      | some place =>
        rw [eq_of_steps?_names hplace]
        exact List.find?_cons_of_neg hstands

/-- A file is looked for from the directory that it is in. -/
theorem searchStart_of_isFile {input : Path} {start : List String}
    (hstart : fs.start? input = some start) (hdirectory : fs.at? start = some .directory)
    (hfile : fs.isFile input = true) :
    fs.start? (searchStart fs input) = some start ∧ ∃ above name,
      fs.place? input = some (above ++ [name]) ∧ fs.place? (searchStart fs input) = some above := by
  obtain ⟨there, hplace, content, hthere⟩ : ∃ there, fs.place? input = some there ∧
      ∃ content, fs.at? there = some (.file content) := by
    rw [isFile] at hfile
    split at hfile
    next content hentry =>
      obtain ⟨there, hlocate, hat⟩ := Option.bind_eq_some_iff.1 hentry
      exact ⟨there, place?_of_locate? hlocate, content, hat⟩
    next => cases hfile
  rw [searchStart, if_pos hfile]
  have hsteps := steps?_of_start? hstart
  rw [hplace] at hsteps
  -- the last step leads to the file, so it is a name
  obtain hnil | ⟨before, c, hbefore⟩ := input.steps.eq_nil_or_concat'
  · rw [hnil] at hsteps
    obtain rfl : start = there := Option.some.inj hsteps
    rw [hdirectory] at hthere
    cases hthere
  · rw [hbefore, steps?_append] at hsteps
    obtain ⟨here, hhere, hlast⟩ := Option.bind_eq_some_iff.1 hsteps
    rw [steps?_singleton] at hlast
    split at hlast
    case isFalse => cases hlast
    next hat =>
      obtain rfl : stepTo here c = there := Option.some.inj hlast
      obtain ⟨-, hnone⟩ | ⟨dir, hdir, hdirSteps, hrooted⟩ := input.parent?_spec
      · simp [hnone] at hbefore
      · have hdirStart : fs.start? dir = some start := by simpa only [start?, hrooted] using hstart
        have hdirPlace : fs.place? dir = some here := by
          rw [← steps?_of_start? hdirStart, hdirSteps, hbefore, List.dropLast_concat, hhere]
        rw [hdir, Option.getD_some]
        refine ⟨hdirStart, ?_⟩
        cases c with
        | name s => exact ⟨here, s, hplace, hdirPlace⟩
        | root => exact absurd (hthere.symm.trans at?_nil) (by simp)
        | current => exact absurd (hthere.symm.trans hat) (by simp)
        | parent => exact absurd (hthere.symm.trans (directory_dropLast hat)) (by simp)

theorem root_notMem_steps (p : Path) : .root ∉ p.steps := by
  rw [p.steps_eq_filter]
  simp

/-- The steps of a path without `..` are names. -/
theorem steps_eq_names {p : Path} (h : .parent ∉ p.components) :
    p.steps = (p.steps.map Path.Component.text).map .name := by
  have hself : p.steps.map (Path.Component.name ∘ Path.Component.text) = p.steps.map id := by
    refine List.map_congr_left fun c hc => ?_
    rw [p.steps_eq_filter, List.mem_filter] at hc
    obtain ⟨hmem, hkind⟩ := hc
    -- a step is a name or goes up, and none goes up
    cases c with
    | root => simp at hkind
    | current => simp at hkind
    | parent => exact absurd hmem h
    | name s => rfl
  rw [List.map_map, hself, List.map_id]

/-- **The nearest configuration on the way is found.** The search starts in the directory that a
file is in, and at any other path itself, and it finds the first configuration in the places that
the path leads through, the last one first. If the path leads to a directory this is the nearest
one in that directory and those above it, unless a configuration stands in a place passed that is
none of them or, for a relative path, above all places passed. Without a `..` it is the nearest
one between the directory and the one that the path starts from, so for an absolute path it is
always the nearest one up to the root. -/
theorem find?_exact {fs : FileSystem} {input : Path} {start : List String}
    (hstart : fs.start? input = some start) (hdirectory : fs.at? start = some .directory) :
    let dir := searchStart fs input
    (if fs.isFile input then ∃ above name, fs.place? input = some (above ++ [name]) ∧
        fs.place? dir = some above
      else dir = input) ∧
    Finds fs dir ((fs.passed start dir.steps).find? (standsIn fs)) ∧
    (∀ place, fs.place? dir = some place →
      (∀ q ∈ fs.passed start dir.steps, standsIn fs q = true → q <+: place) →
      (input.isAbsolute = true ∨
        ∀ q, q <+: place → standsIn fs q = true → q ∈ fs.passed start dir.steps) →
      Finds fs dir (nearest? fs place)) ∧
    (.parent ∉ dir.components →
      let place := start ++ dir.steps.map Path.Component.text
      (∀ there, fs.place? dir = some there → there = place) ∧
      Finds fs dir ((ancestorsUpTo start place).find? (standsIn fs)) ∧
      (input.isAbsolute = true → Finds fs dir (nearest? fs place))) := by
  intro dir
  have hroot (h : input.isAbsolute = true) : start = [] := by
    rw [start?, if_pos (input.isAbsolute_iff.1 h)] at hstart
    exact (Option.some.inj hstart).symm
  -- a path to a file is searched from its directory, which starts at the same place
  have hdir : fs.start? dir = some start := by
    by_cases hfile : fs.isFile input = true
    · exact (searchStart_of_isFile hstart hdirectory hfile).1
    · have hself : dir = input := if_neg hfile
      rw [hself, hstart]
  have hfinds : Finds fs dir ((fs.passed start dir.steps).find? (standsIn fs)) := find?_eq hdir
  refine ⟨?file, hfinds, ?above, fun hnames => ?names⟩
  case file =>
    split
    next hfile => exact (searchStart_of_isFile hstart hdirectory hfile).2
    next hfile => exact if_neg hfile
  case above =>
    intro place hplace hbeside habove
    have hsteps : fs.steps? start dir.steps = some place := by rw [steps?_of_start? hdir, hplace]
    -- from the root every beginning of the place is passed on the way
    have hway : ∀ q, q <+: place → standsIn fs q = true → q ∈ fs.passed start dir.steps := by
      obtain habsolute | habove := habove
      · obtain rfl := hroot habsolute
        exact fun q hq _ => mem_passed_of_prefix hsteps hq
      · exact habove
    rw [nearest?, ← find?_passed (root_notMem_steps dir) hsteps hbeside hway]
    exact hfinds
  case names =>
    have hsteps := steps_eq_names hnames
    -- the steps are names, so the places passed are all between the start and the end
    have hup : Finds fs dir ((ancestorsUpTo start
        (start ++ dir.steps.map Path.Component.text)).find? (standsIn fs)) := by
      rw [← find?_passed_names, ← hsteps]
      exact hfinds
    refine ⟨fun there hthere => ?_, hup, fun habsolute => ?_⟩
    · rw [← steps?_of_start? hdir, hsteps] at hthere
      exact eq_of_steps?_names hthere
    · rw [nearest?, ← ancestorsUpTo_nil, ← hroot habsolute]
      exact hup

/-- A configuration two directories above a file is found for it. -/
theorem find?_for_file :
    let fs : FileSystem := ⟨[(["w", "jscg.toml"], .file (.text "")),
      (["w", "src", "lib", "a.js"], .file (.text ""))], ⟨"/"⟩⟩
    fs.start? ⟨"/w/src/lib/a.js"⟩ = some [] ∧ fs.at? [] = some .directory ∧
      Finds fs (searchStart fs ⟨"/w/src/lib/a.js"⟩) (some ["w"]) := by
  intro fs
  have hstart : fs.start? ⟨"/w/src/lib/a.js"⟩ = some [] := by decide +kernel
  have hdirectory : fs.at? [] = some .directory := FileSystem.at?_nil
  have hnames : .parent ∉ (searchStart fs ⟨"/w/src/lib/a.js"⟩).components := by decide +kernel
  have hfinds := ((find?_exact hstart hdirectory).2.2.2 hnames).2.2 (by decide +kernel)
  have hnearest : nearest? fs ([] ++ (searchStart fs ⟨"/w/src/lib/a.js"⟩).steps.map
      Path.Component.text) = some ["w"] := by decide +kernel
  exact ⟨hstart, hdirectory, hnearest ▸ hfinds⟩

/-- Behind a `..` the search goes back down, and a configuration beside the way up is found. -/
example :
    let fs : FileSystem := ⟨[(["a", "jscg.toml"], .file (.text ""))], ⟨"/"⟩⟩
    find? fs ⟨"/a/.."⟩ = some ⟨"/a/jscg.toml"⟩ ∧ fs.place? ⟨"/a/.."⟩ = some [] ∧
      nearest? fs [] = none := by decide +kernel

/-- From a relative path the search does not leave the working directory. -/
example :
    let fs : FileSystem := ⟨[(["w", "jscg.toml"], .file (.text "")),
      (["w", "src", "a.js"], .file (.text ""))], ⟨"/w/src"⟩⟩
    find? fs ⟨"."⟩ = none ∧ fs.place? ⟨"."⟩ = some ["w", "src"] ∧
      nearest? fs ["w", "src"] = some ["w"] := by decide +kernel

end Config

end CallFlow
