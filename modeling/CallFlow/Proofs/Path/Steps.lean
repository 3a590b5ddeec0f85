import CallFlow.Proofs.Path.Components

/-!
# The steps of a path

What is followed in a path are the names and `..` in it, behind the root if a slash stands first.
Joining two paths puts their steps behind each other (`steps_join`), and the path above a path
lacks its last step (`parent?_spec`). The absolute path of a path goes along its steps, from the
root or from the working directory (`absolute?_eq`).
-/

namespace CallFlow.Path

/-- The names and `..` in a path. -/
def steps (p : Path) : List Component := following p.text.toList

/-- A path starts at the root if a slash stands first. -/
def IsRooted (p : Path) : Prop := p.text.toList.head? = some '/'

instance (p : Path) : Decidable p.IsRooted :=
  inferInstanceAs (Decidable (p.text.toList.head? = some '/'))

theorem following_append_slash (a b : List Char) :
    following (a ++ '/' :: b) = following a ++ following b := by
  rw [following, Text.pieces_append_cons, List.filterMap_append]
  rfl

theorem join_of_isRooted {base rest : Path} (h : rest.IsRooted) : base.join rest = rest :=
  if_pos h

theorem join_of_not_isRooted {base rest : Path} (h : ¬rest.IsRooted) :
    base.join rest =
      if base.text.isEmpty then rest
      else if base.endsWithSlash then ⟨base.text ++ rest.text⟩
      else ⟨base.text ++ "/" ++ rest.text⟩ :=
  if_neg h

/-- What is joined to a path stands behind its pieces. -/
theorem pieces_join (base : Path) {rest : Path} (hrest : ¬rest.IsRooted) :
    ∃ before, Text.pieces '/' (base.join rest).text.toList =
        before ++ Text.pieces '/' rest.text.toList ∧
      before.filterMap Component.ofPiece? = base.steps := by
  rw [join_of_not_isRooted hrest]
  split
  -- behind nothing only the pieces of the second path are left
  next hempty =>
    have hbase : base.text = "" := by simpa using hempty
    refine ⟨[], rfl, ?_⟩
    rw [steps, hbase]
    rfl
  next =>
    split
    -- the slash at the end of the base is the one between the two
    next hslash =>
      obtain ⟨a, ha⟩ := List.getLast?_eq_some_iff.1 (by simpa [endsWithSlash] using hslash)
      refine ⟨Text.pieces '/' a, ?_, ?_⟩
      · rw [String.toList_append, ha, List.append_assoc, List.singleton_append,
          Text.pieces_append_cons]
      · rw [steps, ha, following_append_slash]
        exact (List.append_nil _).symm
    next =>
      refine ⟨Text.pieces '/' base.text.toList, ?_, rfl⟩
      have htext : (base.text ++ "/" ++ rest.text).toList =
          base.text.toList ++ '/' :: rest.text.toList := by simp
      rw [htext, Text.pieces_append_cons]

theorem steps_join {base rest : Path} (hrest : ¬rest.IsRooted) :
    (base.join rest).steps = base.steps ++ rest.steps := by
  obtain ⟨before, hpieces, hbefore⟩ := pieces_join base hrest
  rw [steps, following, hpieces, List.filterMap_append, hbefore]
  rfl

/-- The start of a joined path is that of its base. -/
theorem isRooted_join {base rest : Path} (hrest : ¬rest.IsRooted) :
    (base.join rest).IsRooted ↔ base.IsRooted := by
  rw [join_of_not_isRooted hrest]
  split
  -- without a base the path is relative
  next hempty =>
    have hbase : base.text = "" := by simpa using hempty
    refine iff_of_false hrest ?_
    rw [IsRooted, hbase]
    decide
  next hempty =>
    have hne : base.text.toList ≠ [] := by simpa using hempty
    obtain ⟨c, cs, hbase⟩ := List.exists_cons_of_ne_nil hne
    split <;> simp [IsRooted, hbase]

/-! ## Going along steps -/

namespace Component

variable {c : Component}

/-- The text of a plain component is the one piece that it is read from. -/
theorem IsPlain.pieces_text (hc : c.IsPlain) : Text.pieces '/' c.text.toList = [c.text.toList] := by
  rw [Text.pieces_eq_splitOn, List.splitOn_eq_singleton hc.noSlash]

theorem IsPlain.not_isRooted (hc : c.IsPlain) : ¬(⟨c.text⟩ : Path).IsRooted := fun h =>
  hc.noSlash (List.mem_of_head? h)

theorem IsPlain.steps_text (hc : c.IsPlain) : (⟨c.text⟩ : Path).steps = [c] := by
  rw [steps, following, hc.pieces_text, List.filterMap_cons_some hc.reads, List.filterMap_nil]

end Component

/-- The path that leads from a path along steps. -/
def along (base : Path) (cs : List Component) : Path :=
  cs.foldl (fun here c => here.join ⟨c.text⟩) base

theorem along_concat (base : Path) (cs : List Component) (c : Component) :
    base.along (cs ++ [c]) = (base.along cs).join ⟨c.text⟩ := by
  rw [along, List.foldl_append]
  rfl

section

variable {cs : List Component} (hcs : ∀ c ∈ cs, c.IsPlain)
include hcs

/-- Going along steps takes these steps. -/
theorem steps_along (base : Path) : (base.along cs).steps = base.steps ++ cs := by
  induction cs using List.reverseRecOn with
  | nil => exact (List.append_nil _).symm
  | append_singleton cs c ih =>
    obtain ⟨hcs, hc⟩ := List.forall_mem_append.1 hcs
    have hplain := hc c List.mem_cons_self
    rw [along_concat, steps_join hplain.not_isRooted, hplain.steps_text, ih hcs, List.append_assoc]

theorem isRooted_along (base : Path) : (base.along cs).IsRooted ↔ base.IsRooted := by
  induction cs using List.reverseRecOn with
  | nil => exact Iff.rfl
  | append_singleton cs c ih =>
    obtain ⟨hcs, hc⟩ := List.forall_mem_append.1 hcs
    rw [along_concat, isRooted_join (hc c List.mem_cons_self).not_isRooted, ih hcs]

/-- Steps never lead from a path that is not empty to the empty one. -/
theorem along_ne_empty {base : Path} (hbase : base.text ≠ "") : (base.along cs).text ≠ "" := by
  induction cs using List.reverseRecOn with
  | nil => exact hbase
  | append_singleton cs c ih =>
    obtain ⟨hcs, hc⟩ := List.forall_mem_append.1 hcs
    intro hempty
    have hplain := hc c List.mem_cons_self
    -- the last step is a step of the whole
    have hsteps : (base.along (cs ++ [c])).steps = (base.along cs).steps ++ [c] := by
      rw [along_concat, steps_join hplain.not_isRooted, hplain.steps_text]
    rw [steps, hempty] at hsteps
    exact List.append_ne_nil_of_right_ne_nil _ (List.cons_ne_nil c []) hsteps.symm

/-- The components go behind those of the base. -/
theorem components_along {base : Path} (hbase : base.text ≠ "") :
    (base.along cs).components = base.components ++ cs := by
  induction cs using List.reverseRecOn with
  | nil => exact (List.append_nil _).symm
  | append_singleton cs c ih =>
    obtain ⟨hcs, hc⟩ := List.forall_mem_append.1 hcs
    have hplain := hc c List.mem_cons_self
    have hread : following c.text.toList = [c] := hplain.steps_text
    rw [along_concat, components_join hplain.not_isRooted (along_ne_empty hcs hbase), hread,
      ih hcs, List.append_assoc]

end

/-! ## The path above a path -/

theorem filterMap_ofPiece?_cons (piece : List Char) (rest : List (List Char)) :
    (piece :: rest).filterMap Component.ofPiece? =
      (Component.ofPiece? piece).toList ++ rest.filterMap Component.ofPiece? := by
  rw [List.filterMap_cons]
  cases Component.ofPiece? piece <;> rfl

/-- A path is absolute if it starts with a slash, that is with an empty piece before another. -/
theorem isRooted_iff {p : Path} {first : List Char} {rest : List (List Char)}
    (h : Text.pieces '/' p.text.toList = first :: rest) :
    p.IsRooted ↔ first = [] ∧ rest ≠ [] := by
  have htext : Text.glue '/' (first :: rest) = p.text.toList := h ▸ Text.glue_pieces '/' _
  rw [IsRooted, ← htext]
  cases first with
  | nil => cases rest <;> simp [Text.glue]
  | cons c cs =>
    have hslash : '/' ∉ c :: cs := Text.not_mem_of_mem_pieces (h ▸ List.mem_cons_self)
    have hne : c ≠ '/' := fun hc => hslash (hc ▸ List.mem_cons_self)
    cases rest <;> simp [Text.glue, hne]

/-- What the pieces of a path are is what its steps are, except that a slash alone is two pieces. -/
theorem ofPieces_spec {first : List Char} {rest : List (List Char)}
    (hslash : ∀ piece ∈ first :: rest, '/' ∉ piece) :
    (ofPieces (first :: rest)).steps = (first :: rest).filterMap Component.ofPiece? ∧
      ((ofPieces (first :: rest)).IsRooted ↔ first = []) := by
  by_cases hroot : first :: rest = [[]]
  · cases hroot
    exact ⟨rfl, by decide⟩
  · have hpieces := pieces_ofPieces hslash hroot
    refine ⟨by rw [steps, following, hpieces], (isRooted_iff hpieces).trans ?_⟩
    refine ⟨And.left, fun hfirst => ⟨hfirst, ?_⟩⟩
    rintro rfl
    exact hroot (hfirst ▸ rfl)

/-- The path above a path lacks the last step. There is none above a path without steps, except
that the empty path is above `.`. -/
theorem parent?_spec (p : Path) :
    (p.parent? = none ∧ p.steps = []) ∨
      ∃ q, p.parent? = some q ∧ q.steps = p.steps.dropLast ∧ (q.IsRooted ↔ p.IsRooted) := by
  obtain ⟨first, rest, hpieces⟩ := List.exists_cons_of_ne_nil (Text.pieces_ne_nil '/' p.text.toList)
  obtain ⟨kept, hkept, hsub, hread, hlast⟩ := exists_withoutBlankEnd first rest
  have hsteps : p.steps = (first :: kept).filterMap Component.ofPiece? := by
    rw [steps, following, hpieces, List.filterMap_cons, List.filterMap_cons, hread]
  have hrooted := isRooted_iff hpieces
  rw [parent?, hpieces, hkept, hsteps]
  -- either only the first piece is left, or the last one is a step
  obtain rfl | ⟨before, piece, c, rfl, hc⟩ := hlast
  · cases first with
    | nil => exact .inl ⟨rfl, rfl⟩
    | cons a as =>
      refine .inr ⟨⟨""⟩, rfl, ?_, iff_of_false (by decide) fun h => ?_⟩
      · rw [List.filterMap_cons]
        cases Component.ofPiece? (a :: as) <;> rfl
      · exact List.cons_ne_nil a as (hrooted.1 h).1
  · obtain ⟨outer, houter, hsub', hread', -⟩ := exists_withoutBlankEnd first before
    have hreverse :
        (first :: (before ++ [piece])).reverse = piece :: (first :: before).reverse := by
      rw [← List.cons_append, List.reverse_append]
      rfl
    -- the pieces that are left are pieces of the path
    have hslash : ∀ piece ∈ first :: outer, '/' ∉ piece := by
      have hbefore : outer ⊆ rest := fun q hq => hsub (List.mem_append_left _ (hsub' hq))
      intro q hq
      have hmem : q ∈ Text.pieces '/' p.text.toList := by
        rw [hpieces]
        exact List.cons_subset_cons first hbefore hq
      exact Text.not_mem_of_mem_pieces hmem
    obtain ⟨houterSteps, houterRooted⟩ := ofPieces_spec hslash
    refine .inr ⟨ofPieces (first :: outer), ?_, ?_, houterRooted.trans ?_⟩
    · rw [hreverse]
      split
      next heq => exact absurd heq (List.cons_ne_nil _ _)
      next heq => exact absurd (List.cons.inj heq).2 (by simp)
      next heq => rw [← (List.cons.inj heq).2, houter, List.reverse_reverse]
    · rw [houterSteps, filterMap_ofPiece?_cons, filterMap_ofPiece?_cons, hread',
        List.filterMap_append, List.filterMap_cons_some hc, List.filterMap_nil,
        ← List.append_assoc, List.dropLast_concat]
    · have hne : rest ≠ [] := fun hnil =>
        List.not_mem_nil (hnil ▸ hsub (List.mem_append_right before List.mem_cons_self))
      rw [hrooted]
      exact (and_iff_left hne).symm

/-- A path has no more steps than characters. -/
theorem length_steps_le (p : Path) : p.steps.length ≤ p.text.length := by
  have hone (piece : List Char) : (Component.ofPiece? piece).toList.length ≤ 1 := by
    cases Component.ofPiece? piece <;> simp
  have hpieces (text : List Char) :
      ((Text.pieces '/' text).filterMap Component.ofPiece?).length ≤ text.length := by
    induction text with
    | nil => exact Nat.zero_le _
    | cons c rest ih =>
      rw [Text.pieces]
      split
      · exact Nat.le_succ_of_le ih
      · split
        next heq => exact absurd heq (Text.pieces_ne_nil '/' rest)
        next piece more heq =>
          -- a longer piece is one step at most
          rw [heq, filterMap_ofPiece?_cons, List.length_append] at ih
          rw [filterMap_ofPiece?_cons, List.length_append, List.length_cons]
          have := hone (c :: piece)
          omega
  rw [← String.length_toList]
  exact hpieces p.text.toList

theorem root_ne_ofPiece? {piece : List Char} : Component.ofPiece? piece ≠ some .root := by
  unfold Component.ofPiece?
  split <;> simp

/-- The steps are the components but the root and a leading `.`. -/
theorem steps_eq_filter (p : Path) :
    p.steps = p.components.filter fun c => c ≠ .root ∧ c ≠ .current := by
  -- behind the first piece all components are steps
  have hplain (pieces : List (List Char)) :
      (pieces.filterMap Component.ofPiece?).filter (fun c => c ≠ .root ∧ c ≠ .current) =
        pieces.filterMap Component.ofPiece? := by
    refine List.filter_eq_self.2 fun c hc => ?_
    obtain ⟨piece, -, hread⟩ := List.mem_filterMap.1 hc
    unfold Component.ofPiece? at hread
    split at hread <;> cases hread <;> simp
  rw [steps, following, components]
  split
  next heq => exact absurd heq (Text.pieces_ne_nil '/' _)
  next heq => rw [heq]; rfl
  next rest hne heq =>
    rw [heq, List.filterMap_cons_none rfl, List.filter_cons_of_neg (by simp), hplain]
  next rest heq =>
    rw [heq, List.filterMap_cons_none rfl, List.filter_cons_of_neg (by simp), hplain]
  next => rw [hplain]

/-- A path is absolute if it starts with the root. -/
theorem isAbsolute_iff (p : Path) : p.isAbsolute = true ↔ p.IsRooted := by
  obtain ⟨first, rest, hpieces⟩ := List.exists_cons_of_ne_nil (Text.pieces_ne_nil '/' p.text.toList)
  rw [isRooted_iff hpieces, isAbsolute, decide_eq_true_eq]
  by_cases hne : first ≠ [] ∨ rest ≠ []
  · rw [components_eq hpieces hne]
    cases first with
    | nil => simpa [leading] using hne
    | cons c cs =>
      -- no component of a piece is the root
      refine iff_of_false (fun hhead => ?_) (by simp)
      obtain hmem | hmem := List.mem_append.1 (List.mem_of_head? hhead)
      · unfold leading at hmem
        split at hmem
        next heq => cases heq
        next => simp at hmem
        next => exact root_ne_ofPiece? (Option.mem_toList.1 hmem)
      · obtain ⟨piece, -, hread⟩ := List.mem_filterMap.1 hmem
        exact root_ne_ofPiece? hread
  · obtain ⟨rfl, rfl⟩ : first = [] ∧ rest = [] := by simpa using hne
    rw [components, hpieces]
    simp

/-! ## The absolute path -/

/-- A path ends with a slash if its last piece is empty. -/
theorem endsWithSlash_iff {p : Path} {before : List (List Char)} {last : List Char}
    (h : Text.pieces '/' p.text.toList = before ++ [last]) (hne : p.text ≠ "") :
    p.endsWithSlash = true ↔ last = [] := by
  have hslash : '/' ∉ last :=
    Text.not_mem_of_mem_pieces (h ▸ List.mem_append_right before List.mem_cons_self)
  have htext := Text.glue_pieces '/' p.text.toList
  rw [h] at htext
  rw [endsWithSlash, decide_eq_true_eq, ← htext]
  -- the last character is one of the last piece, and no slash
  have hlast (front : List Char) (hmem : last ≠ []) : (front ++ last).getLast? ≠ some '/' := by
    rw [List.getLast?_append_of_ne_nil _ hmem]
    exact fun hend => hslash (List.mem_of_getLast? hend)
  cases before with
  | nil =>
    have hmem : last ≠ [] := by
      rintro rfl
      exact hne (String.toList_eq_nil_iff.1 htext.symm)
    exact iff_of_false (hlast [] hmem) hmem
  | cons piece more =>
    rw [Text.glue_concat (List.cons_ne_nil piece more), List.append_cons]
    constructor
    · intro hend
      by_contra hmem
      exact hlast _ hmem hend
    · rintro rfl
      simp

theorem isPlain_of_mem_steps {p : Path} {c : Component} (h : c ∈ p.steps) : c.IsPlain := by
  obtain ⟨piece, hpiece, hread⟩ := List.mem_filterMap.1 h
  exact Component.isPlain_of_ofPiece? (Text.not_mem_of_mem_pieces hpiece) hread

/-- Where an absolute path starts there are no steps. -/
theorem rootOf_spec (p : Path) : p.rootOf.IsRooted ∧ p.rootOf.steps = [] := by
  unfold rootOf
  split
  · exact ⟨rfl, rfl⟩
  · split
    · exact ⟨rfl, rfl⟩
    · exact ⟨rfl, rfl⟩
  · exact ⟨rfl, rfl⟩

/-- The absolute path leads along the steps of the path; a slash at the end is kept. -/
theorem absolute?_eq {p base : Path} (h : p.text ≠ "") :
    p.absolute? base =
      let full := (if p.IsRooted then p.rootOf else base).along p.steps
      some (if p.endsWithSlash then full.join ⟨""⟩ else full) := by
  rw [absolute?, if_neg (by simpa using h), ← steps_eq_filter]
  simp only [isAbsolute_iff]
  rfl

end CallFlow.Path
