import CallFlow.Discovery.Files
import CallFlow.Proofs.FileSystem.Places
import CallFlow.Proofs.Lists

/-!
# What a walk finds

A walk from a place goes into each directory that it meets, unless what leads there is refused.
One step takes the names that stand in a directory, each once; `mem_walk` says that all steps
together find what is not refused, and `nodup_walk` that it is found once. So `walkFrom` is a
walker as `IsWalkedBy` asks for, which is what is known of a walker that is not looked into.
-/

namespace CallFlow.FileSystem

variable {fs : FileSystem} {accepts : List String → Bool} {place : List String}

/-- A walker finds what stands at a path and below it, each once, as far as neither what leads
there nor anything above it is refused. -/
def IsWalkedBy (fs : FileSystem) (walker : Discovery.Walker) : Prop :=
  ∀ accepts p place, fs.locate? p = some place →
    (walker accepts p).Nodup ∧ ∀ names entry, (names, entry) ∈ walker accepts p ↔
      fs.at? (place ++ names) = some entry ∧ ∀ above, above <+: names → accepts above = true

/-! ## One directory -/

/-- What stands in a directory has a name there. -/
theorem mem_namesIn {dir : List String} {name : String} (h : fs.at? (dir ++ [name]) ≠ none) :
    name ∈ fs.namesIn dir := by
  obtain ⟨-, ⟨names, kind⟩, hentry, more, hmore⟩ := exists_entry h (by simp)
  refine List.mem_eraseDups.2 (List.mem_filterMap.2 ⟨(names, kind), hentry, ?_⟩)
  obtain rfl : dir ++ [name] ++ more = names := hmore
  have habove : dir.isPrefixOf (dir ++ [name] ++ more) = true :=
    List.isPrefixOf_iff_prefix.2 ⟨name :: more, by simp⟩
  show (if dir.isPrefixOf (dir ++ [name] ++ more) then _ else none) = some name
  rw [if_pos habove]
  simp

/-! ## The walk -/

/-- At a file, a walk finds the file, and in a directory what is found under each of its names. -/
theorem mem_walk_iff {n : Nat} {here names : List String} {entry : FileEntry} :
    (names, entry) ∈ fs.walk accepts place n here ↔ accepts here = true ∧
      (names = here ∧ fs.at? (place ++ here) = some entry ∨
        fs.at? (place ++ here) = some .directory ∧ ∃ m, n = m + 1 ∧
          ∃ name ∈ fs.namesIn (place ++ here),
            (names, entry) ∈ fs.walk accepts place m (here ++ [name])) := by
  conv_lhs => unfold walk
  split
  case isFalse h => simp [h]
  case isTrue h =>
    simp only [h, true_and]
    -- what stands here is found alone
    have hone (found : FileEntry) : (names, entry) ∈ [(here, found)] ↔
        names = here ∧ some found = some entry := by
      rw [List.mem_singleton, Prod.mk.injEq, Option.some.injEq, @eq_comm _ entry]
    cases fs.at? (place ++ here) with
    | none => simp
    | some found =>
      cases found with
      | file content => simp [hone]
      | special => simp [hone]
      | directory =>
        cases n with
        -- the bound has been used up
        | zero => simp [hone]
        | succ n =>
          dsimp only
          rw [← List.singleton_append, List.mem_append, hone, List.mem_flatMap]
          simp

/-- A walk finds what stands so many names deep, if nothing on the way is refused. The induction
is on the depth that is left. -/
theorem mem_walk {n : Nat} {here names : List String} {entry : FileEntry} :
    (names, entry) ∈ fs.walk accepts place n here ↔
      ∃ more, names = here ++ more ∧ more.length ≤ n ∧ fs.at? (place ++ names) = some entry ∧
        ∀ above, above <+: more → accepts (here ++ above) = true := by
  induction n generalizing here with
  | zero =>
    rw [mem_walk_iff]
    constructor
    · rintro ⟨haccepts, ⟨rfl, hat⟩ | ⟨-, m, hm, -⟩⟩
      · exact ⟨[], by simp, Nat.le_refl 0, hat,
          fun above h => by simpa [List.prefix_nil.1 h] using haccepts⟩
      · cases hm
    · rintro ⟨more, rfl, hlength, hat, hall⟩
      obtain rfl := List.eq_nil_of_length_eq_zero (Nat.le_zero.1 hlength)
      rw [List.append_nil] at hat ⊢
      exact ⟨by simpa using hall [] List.prefix_rfl, .inl ⟨rfl, hat⟩⟩
  | succ n ih =>
    rw [mem_walk_iff]
    constructor
    · rintro ⟨haccepts, ⟨rfl, hat⟩ | ⟨-, m, hm, name, -, hname⟩⟩
      · exact ⟨[], by simp, Nat.zero_le _, hat,
          fun above h => by simpa [List.prefix_nil.1 h] using haccepts⟩
      · obtain rfl := Nat.succ.inj hm
        obtain ⟨more, hnames, hlength, hat, hall⟩ := ih.1 hname
        refine ⟨name :: more, by simpa using hnames, Nat.succ_le_succ hlength, hat,
          fun above h => ?_⟩
        cases above with
        | nil => simpa using haccepts
        | cons first above =>
          obtain ⟨rfl, habove⟩ := List.cons_prefix_cons.1 h
          simpa using hall above habove
    · rintro ⟨more, rfl, hlength, hat, hall⟩
      refine ⟨by simpa using hall [] List.nil_prefix, ?_⟩
      cases more with
      | nil =>
        rw [List.append_nil] at hat ⊢
        exact .inl ⟨rfl, hat⟩
      | cons name more =>
        -- something stands further down, so what stands here is a directory that has the name
        have hsplit : place ++ (here ++ name :: more) = place ++ here ++ [name] ++ more := by simp
        have hexists : fs.at? (place ++ here ++ [name] ++ more) ≠ none := by
          rw [← hsplit, hat]
          exact Option.some_ne_none _
        have hdirectory : fs.at? (place ++ here) = some .directory := by
          rw [List.append_assoc] at hexists
          exact directory_above hexists (by simp)
        have hname : name ∈ fs.namesIn (place ++ here) := by
          refine mem_namesIn ?_
          cases more with
          | nil => simpa using hexists
          | cons next more =>
            rw [directory_above hexists (List.cons_ne_nil next more)]
            exact Option.some_ne_none _
        refine .inr ⟨hdirectory, n, rfl, name, hname,
          ih.2 ⟨more, by simp, ?_, hat, fun above h => ?_⟩⟩
        · exact Nat.le_of_succ_le_succ hlength
        · simpa using hall (name :: above) (List.cons_prefix_cons.2 ⟨rfl, h⟩)

/-- The walk finds nothing twice. -/
theorem nodup_walk (n : Nat) (here : List String) : (fs.walk accepts place n here).Nodup := by
  induction n generalizing here with
  | zero =>
    unfold walk
    split
    · cases fs.at? (place ++ here) with
      | none => exact List.nodup_nil
      | some found => cases found <;> exact List.nodup_singleton _
    · exact List.nodup_nil
  | succ n ih =>
    unfold walk
    split
    · cases fs.at? (place ++ here) with
      | none => exact List.nodup_nil
      | some found =>
        cases found with
        | file => exact List.nodup_singleton _
        | special => exact List.nodup_singleton _
        | directory =>
          refine List.nodup_cons.2 ⟨fun h => ?_, List.nodup_flatMap.2 ⟨fun name _ => ih _, ?_⟩⟩
          · -- what is found under a name has more names than what stands here
            obtain ⟨name, -, hname⟩ := List.mem_flatMap.1 h
            obtain ⟨more, hmore, -⟩ := mem_walk.1 hname
            simpa using congrArg List.length hmore
          -- what is found under two names differs in the name that comes next
          · refine (nodup_eraseDups _).imp fun {a b} hne ⟨names, entry⟩ ha hb => hne ?_
            obtain ⟨more, hmore, -⟩ := mem_walk.1 ha
            obtain ⟨more', hmore', -⟩ := mem_walk.1 hb
            have heq : here ++ ([a] ++ more) = here ++ ([b] ++ more') := by
              rw [← List.append_assoc, ← List.append_assoc, ← hmore, ← hmore']
            exact (List.cons.inj (List.append_cancel_left heq)).1
    · exact List.nodup_nil

/-! ## Deep enough -/

/-- No entry has more names than the depth says. -/
theorem length_le_depth {entry : List String × FileEntry} (h : entry ∈ fs.entries) :
    entry.1.length ≤ fs.depth := by
  unfold depth
  generalize fs.entries = entries at h
  induction entries with
  | nil => cases h
  | cons first rest ih =>
    rw [List.foldr_cons]
    rcases List.mem_cons.1 h with rfl | h
    · exact Nat.le_max_left _ _
    · exact Nat.le_trans (ih h) (Nat.le_max_right _ _)

/-- **The walk along a file system finds everything**, as far as it is not refused. -/
theorem isWalkedBy_walkFrom (fs : FileSystem) : fs.IsWalkedBy fs.walkFrom := by
  intro accepts p place hplace
  rw [walkFrom, hplace]
  refine ⟨nodup_walk _ _, fun names entry => mem_walk.trans ⟨?_, fun ⟨hat, hall⟩ => ?_⟩⟩
  -- what is found stands there, and nothing above it was refused
  · rintro ⟨more, rfl, -, hat, hall⟩
    exact ⟨hat, hall⟩
  · refine ⟨names, rfl, ?_, hat, hall⟩
    by_cases hnil : names = []
    · simp [hnil]
    · -- what stands at the names is listed there or above something that is
      have hexists : fs.at? (place ++ names) ≠ none := by
        rw [hat]
        exact Option.some_ne_none entry
      obtain ⟨-, listed, hlisted, habove⟩ := exists_entry hexists (by simp [hnil])
      have hlength := habove.length_le
      have hdepth := length_le_depth hlisted
      rw [List.length_append] at hlength
      omega

end CallFlow.FileSystem
