import CallFlow.CommandLine.Run
import Mathlib.Data.List.Induction
import Mathlib.Data.List.Nodup

/-!
# The last filter that matches decides

Filters push a file, drop it and take it back in one list that all files share. As long as no two
of the files are the same this is a decision for each file on its own: what stands at the end of
the list are copies of that one file, and there is a copy at the end exactly if no filter matches
the file or the last filter that does is a `+`. `Path.dedup` then leaves one copy of each.

Nothing is asked of the engine that compiles and matches the expressions: what it compiles is well
formed, and a filter matches what the engine says that it matches (`chosen_exact`).
-/

namespace CallFlow

/-! ### Lists without doubles -/

namespace Path

theorem sameAs_iff {a b : Path} : a.sameAs b = true ↔ a.components = b.components :=
  decide_eq_true_iff

/-- No two of the paths are the same. -/
def Distinct (paths : List Path) : Prop := (paths.map components).Nodup

instance (paths : List Path) : Decidable (Distinct paths) :=
  inferInstanceAs (Decidable (paths.map components).Nodup)

namespace Distinct

theorem nil : Distinct [] := List.nodup_nil

theorem cons_iff {path : Path} {paths : List Path} :
    Distinct (path :: paths) ↔
      (∀ other ∈ paths, path.components ≠ other.components) ∧ Distinct paths := by
  simp only [Distinct, List.map_cons, List.nodup_cons, List.mem_map, not_exists, not_and]
  exact and_congr_left fun _ => forall₂_congr fun _ _ => ne_comm

end Distinct

/-- One step of `dedup`; the paths kept so far stand in reverse order. -/
def keepNew (kept : List Path) (path : Path) : List Path :=
  if kept.any path.sameAs then kept else path :: kept

theorem dedup_eq (paths : List Path) : dedup paths = (paths.foldl keepNew []).reverse := rfl

theorem keepNew_of_mem {kept : List Path} {path : Path} (h : path ∈ kept) :
    keepNew kept path = kept :=
  if_pos (List.any_eq_true.2 ⟨path, h, sameAs_iff.2 rfl⟩)

theorem keepNew_of_new {kept : List Path} {path : Path}
    (h : ∀ other ∈ kept, path.components ≠ other.components) :
    keepNew kept path = path :: kept :=
  if_neg fun hany =>
    have ⟨other, hother, hsame⟩ := List.any_eq_true.1 hany
    h other hother (sameAs_iff.1 hsame)

/-- What is kept stays free of repeats. -/
theorem distinct_keepNew {kept : List Path} (h : Distinct kept) (path : Path) :
    Distinct (keepNew kept path) := by
  unfold keepNew
  split
  · exact h
  · rename_i hany
    refine Distinct.cons_iff.2 ⟨fun other hother hsame => hany ?_, h⟩
    exact List.any_eq_true.2 ⟨other, hother, sameAs_iff.2 hsame⟩

/-- No two paths that are kept are the same. -/
theorem distinct_dedup (paths : List Path) : Distinct (dedup paths) := by
  have hfold : ∀ kept, Distinct kept → Distinct (paths.foldl keepNew kept) := by
    induction paths with
    | nil => exact fun kept h => h
    | cons path paths ih => exact fun kept h => ih _ (distinct_keepNew h path)
  rw [dedup_eq, Distinct, List.map_reverse, List.nodup_reverse]
  exact hfold [] Distinct.nil

/-- Copies of a path that is kept already add nothing. -/
theorem foldl_keepNew_replicate {kept : List Path} {path : Path} (h : path ∈ kept) (n : Nat) :
    (List.replicate n path).foldl keepNew kept = kept := by
  induction n with
  | zero => rfl
  | succ n ih => rw [List.replicate_succ, List.foldl_cons, keepNew_of_mem h, ih]

/-- Of copies of a path that is not kept yet, one is kept. -/
theorem foldl_keepNew_copies {kept : List Path} {path : Path}
    (h : ∀ other ∈ kept, path.components ≠ other.components) (n : Nat) :
    (List.replicate n path).foldl keepNew kept = if n = 0 then kept else path :: kept := by
  cases n with
  | zero => rfl
  | succ n =>
    rw [List.replicate_succ, List.foldl_cons, keepNew_of_new h,
      foldl_keepNew_replicate List.mem_cons_self, if_neg n.succ_ne_zero]

/-- Of copies of distinct paths, one of each path is kept, in order. -/
theorem dedup_copies {paths : List Path} (h : Distinct paths) (copies : Path → Nat) :
    dedup (paths.flatMap fun path => List.replicate (copies path) path) =
      paths.filter fun path => copies path ≠ 0 := by
  -- the induction speaks of what has been kept so far
  have hfold : ∀ kept : List Path,
      (∀ path ∈ paths, ∀ other ∈ kept, path.components ≠ other.components) →
      (paths.flatMap fun path => List.replicate (copies path) path).foldl keepNew kept =
        (paths.filter fun path => copies path ≠ 0).reverse ++ kept := by
    induction paths with
    | nil => exact fun kept _ => rfl
    | cons path paths ih =>
      obtain ⟨hnew, hpaths⟩ := Distinct.cons_iff.1 h
      intro kept hkept
      obtain ⟨hpath, hrest⟩ := List.forall_mem_cons.1 hkept
      rw [List.flatMap_cons, List.foldl_append, foldl_keepNew_copies hpath]
      -- a path without a copy leaves no trace
      by_cases hnone : copies path = 0
      · rw [if_pos hnone, ih hpaths kept hrest, List.filter_cons_of_neg (by simpa using hnone)]
      · rw [if_neg hnone, ih hpaths, List.filter_cons_of_pos (by simpa using hnone),
          List.reverse_cons, List.append_assoc, List.singleton_append]
        intro later hlater
        exact List.forall_mem_cons.2 ⟨(hnew later hlater).symm, hrest later hlater⟩
  rw [dedup_eq, hfold [] (by simp), List.append_nil, List.reverse_reverse]

end Path

/-- No file is found twice. -/
theorem Discovery.distinct_collect (walker : Walker) (fs : FileSystem) (paths : List Path) :
    Path.Distinct (collect walker fs paths) :=
  Path.distinct_dedup _

namespace Filter

variable {ρ : Type} (engine : RegexEngine ρ)

/-! ### What filters do to one file -/

/-- The last filter that matches a file. -/
def lastMatch? (filters : List (Filter ρ)) (file : Path) : Option (Filter ρ) :=
  (filters.filter (isMatch engine · file)).getLast?

/-- Whether filters keep a file: none of them matches it, or the last one that does is a `+`. -/
def keeps (filters : List (Filter ρ)) (file : Path) : Bool :=
  (lastMatch? engine filters file).all (·.action = .add)

/-- How many copies of a file a filter leaves of so many. -/
def copiesAfter (file : Path) (n : Nat) (filter : Filter ρ) : Nat :=
  if filter.isMatch engine file then
    match filter.action with
    | .remove => 0
    | .add => n + 1
  else n

/-- A filter changes nothing but the copies of its file. -/
theorem applyTo_copies {kept : List Path} {file : Path}
    (h : ∀ other ∈ kept, other.components ≠ file.components) (n : Nat) (filter : Filter ρ) :
    applyTo engine file (kept ++ List.replicate n file) filter =
      kept ++ List.replicate (copiesAfter engine file n filter) file := by
  unfold applyTo copiesAfter
  split
  · cases filter.action with
    | remove =>
      -- the filter takes back copies of this file only, for the others differ from it
      have hkept : kept.filter (fun other => !other.sameAs file) = kept :=
        List.filter_eq_self.2 fun other hother => by simpa [Path.sameAs] using h other hother
      rw [List.filter_append, hkept]
      simp [Path.sameAs]
    | add => simp [List.replicate_succ']
  · rfl

/-- The filters change the number of copies of this file and nothing else. -/
theorem foldl_applyTo_copies {kept : List Path} {file : Path}
    (h : ∀ other ∈ kept, other.components ≠ file.components) (filters : List (Filter ρ)) (n : Nat) :
    filters.foldl (applyTo engine file) (kept ++ List.replicate n file) =
      kept ++ List.replicate (filters.foldl (copiesAfter engine file) n) file := by
  induction filters generalizing n with
  | nil => rfl
  | cons filter filters ih => rw [List.foldl_cons, applyTo_copies engine h, ih, List.foldl_cons]

/-- How many copies of a file filters leave in the list that files share. -/
def copies (filters : List (Filter ρ)) (file : Path) : Nat :=
  filters.foldl (copiesAfter engine file) 1

/-- A file is left exactly if the last filter that matches it says so. -/
theorem copies_ne_zero_iff (filters : List (Filter ρ)) (file : Path) :
    copies engine filters file ≠ 0 ↔ keeps engine filters file = true := by
  unfold copies
  -- the last filter either decides or passes the decision on to those before it
  induction filters using List.reverseRecOn with
  | nil => simp [keeps, lastMatch?]
  | append_singleton filters filter ih =>
    rw [List.foldl_concat]
    by_cases hmatch : filter.isMatch engine file = true
    · have hlast : lastMatch? engine (filters ++ [filter]) file = some filter := by
        simp [lastMatch?, hmatch]
      rw [keeps, hlast, copiesAfter, if_pos hmatch]
      cases haction : filter.action <;> simp [haction]
    · have hlast :
          lastMatch? engine (filters ++ [filter]) file = lastMatch? engine filters file := by
        simp [lastMatch?, hmatch]
      rw [keeps, hlast, copiesAfter, if_neg hmatch]
      exact ih

/-! ### What filters do to all files -/

/-- A file is put behind those that are kept, and the filters decide how often it stays there. -/
theorem applyAll_eq {kept : List Path} {file : Path}
    (h : ∀ other ∈ kept, other.components ≠ file.components) (filters : List (Filter ρ)) :
    applyAll engine filters kept file = kept ++ List.replicate (copies engine filters file) file :=
  foldl_applyTo_copies engine h filters 1

/-- The shared list holds copies of the files, file by file. -/
theorem foldl_applyAll_eq {files : List Path} (hfiles : Path.Distinct files)
    (filters : List (Filter ρ)) (kept : List Path)
    (hkept : ∀ file ∈ files, ∀ other ∈ kept, other.components ≠ file.components) :
    files.foldl (applyAll engine filters) kept =
      kept ++ files.flatMap fun file => List.replicate (copies engine filters file) file := by
  induction files generalizing kept with
  | nil => simp
  | cons file files ih =>
    obtain ⟨hfile, hrest⟩ := List.forall_mem_cons.1 hkept
    obtain ⟨hnew, hfiles⟩ := Path.Distinct.cons_iff.1 hfiles
    rw [List.foldl_cons, applyAll_eq engine hfile, ih hfiles, List.flatMap_cons, List.append_assoc]
    intro later hlater other hother
    -- a later file differs from those before it and from the copies of this one
    rcases List.mem_append.1 hother with hother | hother
    · exact hrest later hlater other hother
    · rw [(List.mem_replicate.1 hother).2]
      exact hnew later hlater

@[simp] theorem select_nil (files : List Path) : select engine [] files = files := rfl

/-- Filters leave the files that the last matching filter keeps, in order. -/
theorem select_eq {files : List Path} (h : Path.Distinct files) (filters : List (Filter ρ)) :
    select engine filters files = files.filter (keeps engine filters) := by
  cases filters with
  | nil => exact (List.filter_eq_self.2 fun _ _ => rfl).symm
  | cons filter filters =>
    rw [select, if_neg (by simp), foldl_applyAll_eq engine h _ [] (by simp),
      List.nil_append, Path.dedup_copies h]
    refine List.filter_congr fun file _ => ?_
    rw [Bool.eq_iff_iff, decide_eq_true_iff]
    exact copies_ne_zero_iff engine _ file

/-! ### What is a filter -/

/-- A text is a filter if it is a sign and behind it a regular expression; white space around the
expression does not belong to it. -/
inductive Written : String → Filter ρ → Prop
  | mk {action : FilterAction} {rest : String} {regex : ρ}
      (h : engine.compile? (String.ofList (trim rest.toList)) = some regex) :
      Written (action.sign ++ rest) ⟨action, String.ofList (trim rest.toList), regex⟩

theorem actionOf?_iff {c : Char} {action : FilterAction} :
    actionOf? c = some action ↔ action.sign.toList = [c] := by
  unfold actionOf?
  cases action <;> split_ifs <;> simp_all [FilterAction.sign, eq_comm]

/-- A filter is read if it is written as a sign and an expression that the engine accepts. -/
theorem ofText_eq_ok_iff {spec : String} {filter : Filter ρ} :
    ofText engine spec = .ok filter ↔ Written engine spec filter := by
  constructor
  · intro h
    unfold ofText at h
    split at h
    case h_1 => cases h
    case h_2 c rest hspec =>
      cases haction : actionOf? c with
      | none => simp [haction] at h
      | some action =>
        cases hregex : engine.compile? (String.ofList (trim rest)) with
        | none => simp [haction, hregex] at h
        | some regex =>
          -- the first character is the sign, and the rest is the expression with blanks around it
          have hwritten : spec = action.sign ++ String.ofList rest := by
            rw [← String.toList_inj, hspec, String.toList_append, actionOf?_iff.1 haction,
              String.toList_ofList, List.singleton_append]
          simp only [haction, hregex, Except.ok.injEq] at h
          rw [← h, hwritten]
          have hrest : trim (String.ofList rest).toList = trim rest := by
            rw [String.toList_ofList]
          rw [← hrest] at hregex ⊢
          exact .mk hregex
  · rintro ⟨hregex⟩
    rename_i action rest regex
    obtain ⟨c, hsign⟩ : ∃ c, action.sign.toList = [c] := by cases action <;> exact ⟨_, rfl⟩
    have hspec : (action.sign ++ rest).toList = c :: rest.toList := by
      rw [String.toList_append, hsign, List.singleton_append]
    unfold ofText
    rw [hspec]
    simp only [actionOf?_iff.2 hsign, hregex]

/-- A text is no filter because no sign stands at its start, or because what stands behind the sign
is no regular expression. -/
theorem exists_error_iff {spec : String} :
    (∃ cause, ofText engine spec = .error cause) ↔ ∀ filter, ¬ Written engine spec filter := by
  simp only [← ofText_eq_ok_iff]
  cases ofText engine spec <;> simp

/-- Texts are filters if each of them is. -/
theorem ofTexts_eq_ok_iff {specs : List String} {filters : List (Filter ρ)} :
    ofTexts engine specs = .ok filters ↔ List.Forall₂ (Written engine) specs filters := by
  unfold ofTexts
  induction specs generalizing filters with
  | nil => simp [pure, Except.pure, eq_comm]
  | cons spec specs ih =>
    rw [List.mapM_cons, List.forall₂_cons_left_iff]
    simp only [← ih, ← ofText_eq_ok_iff]
    -- the first filter that is malformed ends the reading
    cases ofText engine spec with
    | error cause => simp [bind, Except.bind]
    | ok filter =>
      cases specs.mapM (ofText engine) <;>
        simp [bind, Except.bind, pure, Except.pure, eq_comm]

/-- Texts are not filters as soon as one of them is none. -/
theorem exists_ofTexts_error_iff {specs : List String} :
    (∃ cause, ofTexts engine specs = .error cause) ↔
      ∃ spec ∈ specs, ∀ filter, ¬ Written engine spec filter := by
  simp only [← exists_error_iff]
  unfold ofTexts
  induction specs with
  | nil => simp [pure, Except.pure]
  | cons spec specs ih =>
    rw [List.mapM_cons, List.exists_mem_cons_iff, ← ih]
    cases ofText engine spec with
    | error cause => simp [bind, Except.bind]
    | ok filter => cases specs.mapM (ofText engine) <;> simp [bind, Except.bind, pure, Except.pure]

end Filter

namespace CommandLine

variable {ρ : Type} (engine : RegexEngine ρ)

/-- What `selected` does with the source files it found. -/
def chosen (config : Config) (specs : List String) (files : List Path) :
    Except Failure (List Path) :=
  match Filter.ofTexts engine (config.filters ++ specs) with
  | .error cause => .error (.filter cause)
  | .ok filters =>
    match Filter.select engine filters files with
    | [] => .error .noFiles
    | kept => .ok kept

theorem selected_eq (walker : Discovery.Walker) (fs : FileSystem) (config : Config)
    (specs : List String) (paths : List Path) :
    selected engine walker fs config specs paths =
      chosen engine config specs (Discovery.collect walker fs paths) := rfl

section

variable {config : Config} {specs : List String} {files : List Path}

/-- What can happen: a text is no filter, no file is left, or some are. -/
theorem chosen_cases (config : Config) (specs : List String) (h : Path.Distinct files) :
    (∃ cause, Filter.ofTexts engine (config.filters ++ specs) = .error cause ∧
      chosen engine config specs files = .error (.filter cause)) ∨
    ∃ filters, Filter.ofTexts engine (config.filters ++ specs) = .ok filters ∧
      (files.filter (Filter.keeps engine filters) = [] ∧
          chosen engine config specs files = .error .noFiles ∨
        files.filter (Filter.keeps engine filters) ≠ [] ∧
          chosen engine config specs files = .ok (files.filter (Filter.keeps engine filters))) := by
  unfold chosen
  cases Filter.ofTexts engine (config.filters ++ specs) with
  | error cause => exact .inl ⟨cause, rfl, rfl⟩
  | ok filters =>
    refine .inr ⟨filters, rfl, ?_⟩
    simp only [Filter.select_eq engine h]
    split
    next hnone => exact .inl ⟨hnone, rfl⟩
    next hsome => exact .inr ⟨hsome, rfl⟩

/-- All filters are read, and some file is kept. -/
theorem chosen_eq_ok_iff (h : Path.Distinct files) {kept : List Path} :
    chosen engine config specs files = .ok kept ↔
      ∃ filters, Filter.ofTexts engine (config.filters ++ specs) = .ok filters ∧
        kept = files.filter (Filter.keeps engine filters) ∧ kept ≠ [] := by
  obtain ⟨cause, hread, hchosen⟩ | ⟨filters, hread, ⟨hnone, hchosen⟩ | ⟨hsome, hchosen⟩⟩ :=
    chosen_cases engine config specs h
  · simp [hread, hchosen]
  · rw [hread, hchosen]
    simp only [reduceCtorEq, Except.ok.injEq, exists_eq_left', false_iff, not_and]
    exact fun hkept hne => hne (hkept.trans hnone)
  · rw [hread, hchosen]
    simp only [Except.ok.injEq, exists_eq_left']
    exact ⟨fun hkept => ⟨hkept.symm, hkept ▸ hsome⟩, fun hkept => hkept.1.symm⟩

theorem chosen_malformed_iff (h : Path.Distinct files) :
    (∃ cause, chosen engine config specs files = .error (.filter cause)) ↔
      ∃ cause, Filter.ofTexts engine (config.filters ++ specs) = .error cause := by
  obtain ⟨cause, hread, hchosen⟩ | ⟨filters, hread, ⟨-, hchosen⟩ | ⟨-, hchosen⟩⟩ :=
    chosen_cases engine config specs h <;> simp [hread, hchosen]

/-- That no file is kept is reported if all filters are read. -/
theorem chosen_eq_noFiles_iff (h : Path.Distinct files) :
    chosen engine config specs files = .error .noFiles ↔
      ∃ filters, Filter.ofTexts engine (config.filters ++ specs) = .ok filters ∧
        files.filter (Filter.keeps engine filters) = [] := by
  obtain ⟨cause, hread, hchosen⟩ | ⟨filters, hread, ⟨hnone, hchosen⟩ | ⟨hsome, hchosen⟩⟩ :=
    chosen_cases engine config specs h
  · simp [hread, hchosen]
  · rw [hread, hchosen]
    exact ⟨fun _ => ⟨filters, rfl, hnone⟩, fun _ => rfl⟩
  · rw [hread, hchosen]
    simp only [reduceCtorEq, Except.ok.injEq, exists_eq_left', false_iff]
    exact hsome

/-- There are no other failures. -/
theorem failure_of_chosen (h : Path.Distinct files) {failure : Failure}
    (hfail : chosen engine config specs files = .error failure) :
    failure = .noFiles ∨ ∃ cause, failure = .filter cause := by
  obtain ⟨cause, -, hchosen⟩ | ⟨filters, -, ⟨-, hchosen⟩ | ⟨-, hchosen⟩⟩ :=
    chosen_cases engine config specs h
  · exact .inr ⟨cause, by simpa [hchosen] using hfail.symm⟩
  · exact .inl (by simpa [hchosen] using hfail.symm)
  · simp [hchosen] at hfail

/-- **The last filter that matches decides.** The filters are the patterns that the configuration
excludes, each behind a `-`, then those that it includes, each behind a `+`, and then those of the
command line. Of files without doubles, such as the source files that are found, those are left,
in order, that no filter matches or that the last matching filter takes back. What is an
expression and what it matches is up to the engine, whichever it is. There is a failure exactly if
one of the filters is malformed or no file is left, and without filters every list stays as it is.
-/
theorem chosen_exact (config : Config) (specs : List String) (h : Path.Distinct files) :
    let texts := config.excludes.map ("-" ++ ·) ++ config.includes.map ("+" ++ ·) ++ specs
    (∀ kept, chosen engine config specs files = .ok kept ↔
      ∃ filters, List.Forall₂ (Filter.Written engine) texts filters ∧
        kept = files.filter (Filter.keeps engine filters) ∧ kept ≠ []) ∧
    ((∃ cause, chosen engine config specs files = .error (.filter cause)) ↔
      ∃ text ∈ texts, ∀ filter, ¬ Filter.Written engine text filter) ∧
    (chosen engine config specs files = .error .noFiles ↔
      ∃ filters, List.Forall₂ (Filter.Written engine) texts filters ∧
        files.filter (Filter.keeps engine filters) = []) ∧
    (∀ failure, chosen engine config specs files = .error failure →
      failure = .noFiles ∨ ∃ cause, failure = .filter cause) ∧
    (∀ any, Filter.select engine [] any = any) ∧
    ∀ walker fs paths, Path.Distinct (Discovery.collect walker fs paths) ∧
      selected engine walker fs config specs paths =
        chosen engine config specs (Discovery.collect walker fs paths) := by
  intro texts
  have htexts : texts = config.filters ++ specs := rfl
  simp only [← Filter.ofTexts_eq_ok_iff, ← Filter.exists_ofTexts_error_iff, htexts]
  refine ⟨fun kept => chosen_eq_ok_iff engine h, chosen_malformed_iff engine h,
    chosen_eq_noFiles_iff engine h, fun failure => failure_of_chosen engine h,
    Filter.select_nil engine, fun walker fs paths => ?_⟩
  exact ⟨Discovery.distinct_collect walker fs paths,
    selected_eq engine walker fs config specs paths⟩

/-- A file that the configuration excludes and the command line takes back is left, behind the
files that no filter matches. -/
theorem chosen_taken_back :
    Path.Distinct [⟨"a.js"⟩, ⟨"drop.test.js"⟩, ⟨"keep.test.js"⟩] ∧
      chosen Regex.engine { excludes := ["test"] } ["+ keep"]
          [⟨"a.js"⟩, ⟨"drop.test.js"⟩, ⟨"keep.test.js"⟩] =
        .ok [⟨"a.js"⟩, ⟨"keep.test.js"⟩] := by
  have hdistinct : Path.Distinct [⟨"a.js"⟩, ⟨"drop.test.js"⟩, ⟨"keep.test.js"⟩] := by decide
  have hread : List.Forall₂ (Filter.Written Regex.engine) ["-test", "+ keep"]
      [⟨.remove, "test", (Regex.ofText? "test").get!⟩,
        ⟨.add, "keep", (Regex.ofText? "keep").get!⟩] :=
    (Filter.ofTexts_eq_ok_iff _).1 (by decide)
  exact ⟨hdistinct,
    ((chosen_exact Regex.engine _ _ hdistinct).1 _).2 ⟨_, hread, by decide, by decide⟩⟩

end

end CommandLine

end CallFlow
