import CallFlow.Path
import Mathlib.Data.List.Basic
import Mathlib.Data.List.Induction

/-!
# Components of written paths

A path is read from its text and written back as text. Its components come from the pieces
between the slashes: the first piece tells what the path starts with, and every other piece is
a component or nothing. So text behind a slash adds its components (`components_slash`), and
components that can be read from their own text are read again once they are written
(`components_ofComponents`).
-/

namespace CallFlow

theorem Text.pieces_eq_splitOn (sep : Char) (text : List Char) :
    pieces sep text = text.splitOn sep := by
  induction text with
  | nil => simp [pieces]
  | cons c rest ih =>
    rw [pieces, List.splitOn_cons_eq_if_modifyHead, ih]
    simp only [beq_iff_eq]
    refine if_congr Iff.rfl rfl ?_
    cases h : rest.splitOn sep with
    | nil => exact absurd h (List.splitOn_ne_nil sep rest)
    | cons piece more => rfl

theorem Text.pieces_append_cons (sep : Char) (a b : List Char) :
    pieces sep (a ++ sep :: b) = pieces sep a ++ pieces sep b := by
  simp only [pieces_eq_splitOn, List.splitOn_append_cons_self]

/-- No piece has a separator in it. -/
theorem Text.not_mem_of_mem_pieces {sep : Char} {text piece : List Char}
    (h : piece ∈ pieces sep text) : sep ∉ piece := by
  induction text generalizing piece with
  | nil =>
    rw [pieces, List.mem_singleton] at h
    exact h ▸ List.not_mem_nil
  | cons c rest ih =>
    rw [pieces] at h
    split at h
    next =>
      obtain rfl | h := List.mem_cons.1 h
      · exact List.not_mem_nil
      · exact ih h
    next hc =>
      have hne : sep ≠ c := fun h => hc h.symm
      split at h
      next =>
        rw [List.mem_singleton] at h
        exact h ▸ fun hmem => hne (List.mem_singleton.1 hmem)
      -- the character belongs to the first piece
      next first more heq =>
        rw [heq] at ih
        obtain rfl | h := List.mem_cons.1 h
        · exact List.not_mem_cons_of_ne_of_not_mem hne (ih List.mem_cons_self)
        · exact ih (List.mem_cons_of_mem _ h)

theorem Text.glue_eq_intercalate (sep : Char) (pieces : List (List Char)) :
    glue sep pieces = [sep].intercalate pieces := by
  induction pieces with
  | nil => rfl
  | cons piece more ih =>
    cases more with
    | nil => simp [glue]
    | cons next more => rw [glue, ih, List.intercalate_cons_cons] <;> simp

theorem Text.glue_cons {sep : Char} {more : List (List Char)} (h : more ≠ []) (piece : List Char) :
    glue sep (piece :: more) = piece ++ sep :: glue sep more :=
  glue.eq_3 sep piece more h

/-- The last piece stands behind a separator. -/
theorem Text.glue_concat {sep : Char} {pieces : List (List Char)} (h : pieces ≠ [])
    (last : List Char) :
    glue sep (pieces ++ [last]) = glue sep pieces ++ sep :: last := by
  induction pieces with
  | nil => exact absurd rfl h
  | cons piece more ih =>
    cases more with
    | nil => rfl
    | cons next more =>
      rw [List.cons_append, glue_cons (by simp), glue_cons (by simp), ih (by simp),
        List.append_assoc, List.cons_append]

/-- Only one empty piece is glued to nothing. -/
theorem Text.glue_eq_nil {sep : Char} {pieces : List (List Char)} (hne : pieces ≠ [])
    (h : glue sep pieces = []) : pieces = [[]] := by
  obtain ⟨piece, more, rfl⟩ := List.exists_cons_of_ne_nil hne
  cases more with
  | nil => exact congrArg ([·]) h
  | cons next more =>
    rw [glue_cons (by simp)] at h
    simp at h

namespace Path

/-! ## Reading -/

/-- The component is read from its own text, wherever this stands behind a slash. -/
structure Component.IsPlain (c : Component) : Prop where
  noSlash : '/' ∉ c.text.toList
  reads : Component.ofPiece? c.text.toList = some c

instance (c : Component) : Decidable c.IsPlain :=
  decidable_of_iff ('/' ∉ c.text.toList ∧ Component.ofPiece? c.text.toList = some c)
    ⟨fun h => ⟨h.1, h.2⟩, fun h => ⟨h.noSlash, h.reads⟩⟩

theorem Component.isPlain_parent : Component.parent.IsPlain := ⟨by decide, rfl⟩

/-- What a piece is read as can be written as a piece. -/
theorem Component.isPlain_of_ofPiece? {piece : List Char} {c : Component} (hslash : '/' ∉ piece)
    (h : ofPiece? piece = some c) : c.IsPlain := by
  have htext : c.text.toList = piece := by
    unfold ofPiece? at h
    split at h
    · cases h
    · cases h
    · cases h; rfl
    · cases h; exact String.toList_ofList
  exact ⟨htext ▸ hslash, htext.symm ▸ h⟩

/-- Text of three characters or more without a slash is a name. -/
theorem Component.isPlain_name {s : String} (hslash : '/' ∉ s.toList)
    (hlength : 3 ≤ s.toList.length) : (Component.name s).IsPlain := by
  refine ⟨hslash, ?_⟩
  rw [Component.text, ofPiece?.eq_4 s.toList (fun h => ?_) (fun h => ?_) fun h => ?_,
    String.ofList_toList]
  all_goals simp [h] at hlength

theorem Component.IsPlain.ne_root {c : Component} (h : c.IsPlain) : c ≠ .root := by
  rintro rfl
  nomatch h.reads

/-- The component that the first piece of a path stands for. -/
def leading : List Char → List Component
  | [] => [.root]
  | ['.'] => [.current]
  | piece => (Component.ofPiece? piece).toList

/-- The components of text behind a slash. -/
def following (text : List Char) : List Component :=
  (Text.pieces '/' text).filterMap Component.ofPiece?

/-- The first piece decides how a path starts. Of the others names and `..` are left. -/
theorem components_eq {p : Path} {first : List Char} {rest : List (List Char)}
    (h : Text.pieces '/' p.text.toList = first :: rest) (hne : first ≠ [] ∨ rest ≠ []) :
    p.components = leading first ++ rest.filterMap Component.ofPiece? := by
  have hcons : List.filterMap Component.ofPiece? (first :: rest) =
      (Component.ofPiece? first).toList ++ rest.filterMap Component.ofPiece? := by
    rw [List.filterMap_cons]
    cases Component.ofPiece? first <;> rfl
  rw [components, h]
  unfold leading
  split
  · contradiction
  · simp_all
  · simp_all
  · simp_all
  · rw [hcons]
    split <;> first | rfl | simp_all

/-- After the root or a `.`, if one stands first, the components of a path are plain. -/
theorem exists_components (p : Path) :
    ∃ first rest, p.components = first ++ rest ∧ (∀ c ∈ rest, c.IsPlain) ∧
      (first = [] ∨ first = [.root] ∨ first = [.current]) := by
  have hplain (text : List (List Char)) (h : text <:+ Text.pieces '/' p.text.toList) :
      ∀ c ∈ text.filterMap Component.ofPiece?, c.IsPlain := fun c hc => by
    obtain ⟨piece, hpiece, hread⟩ := List.mem_filterMap.1 hc
    exact Component.isPlain_of_ofPiece? (Text.not_mem_of_mem_pieces (h.mem hpiece)) hread
  rw [components]
  split
  · exact ⟨[], [], rfl, by simp, .inl rfl⟩
  · exact ⟨[], [], rfl, by simp, .inl rfl⟩
  · rename_i rest _ heq
    exact ⟨[.root], _, rfl, hplain rest (heq ▸ List.suffix_cons _ _), .inr (.inl rfl)⟩
  · rename_i rest heq
    exact ⟨[.current], _, rfl, hplain rest (heq ▸ List.suffix_cons _ _), .inr (.inr rfl)⟩
  · exact ⟨[], _, rfl, hplain _ (List.suffix_refl _), .inl rfl⟩

/-! ## Text behind a slash -/

/-- Behind a slash a path goes on. -/
theorem components_slash (a b : List Char) :
    (⟨String.ofList (a ++ '/' :: b)⟩ : Path).components =
      (⟨String.ofList (a ++ ['/'])⟩ : Path).components ++ following b := by
  obtain ⟨first, rest, h⟩ := List.exists_cons_of_ne_nil (Text.pieces_ne_nil '/' a)
  have hread (text : List Char) : (⟨String.ofList (a ++ '/' :: text)⟩ : Path).components =
      leading first ++ (rest.filterMap Component.ofPiece? ++ following text) := by
    have hpieces : Text.pieces '/' (⟨String.ofList (a ++ '/' :: text)⟩ : Path).text.toList =
        first :: (rest ++ Text.pieces '/' text) := by
      rw [String.toList_ofList, Text.pieces_append_cons, h, List.cons_append]
    have hne : rest ++ Text.pieces '/' text ≠ [] :=
      List.append_ne_nil_of_right_ne_nil _ (Text.pieces_ne_nil '/' text)
    rw [components_eq hpieces (.inr hne), List.filterMap_append, following]
  have hnil : following [] = [] := rfl
  rw [hread b, hread [], hnil, List.append_nil, List.append_assoc]

/-- A slash at the end says nothing. -/
theorem components_slash_end {a : List Char} (hne : a ≠ []) :
    (⟨String.ofList (a ++ ['/'])⟩ : Path).components = (⟨String.ofList a⟩ : Path).components := by
  obtain ⟨first, rest, h⟩ := List.exists_cons_of_ne_nil (Text.pieces_ne_nil '/' a)
  have hfirst : first ≠ [] ∨ rest ≠ [] := by
    rw [or_iff_not_imp_left, not_not]
    rintro rfl rfl
    exact hne (by rw [← Text.glue_pieces '/' a, h, Text.glue])
  have hpieces : Text.pieces '/' (⟨String.ofList a⟩ : Path).text.toList = first :: rest := by
    rwa [String.toList_ofList]
  have hblank : following [] = [] := rfl
  -- the slash adds an empty piece, which is no component
  have hslash : Text.pieces '/' (⟨String.ofList (a ++ ['/'])⟩ : Path).text.toList =
      first :: (rest ++ Text.pieces '/' []) := by
    rw [String.toList_ofList, Text.pieces_append_cons, h, List.cons_append]
  rw [components_eq hslash (.inr (by simp [Text.pieces])), components_eq hpieces hfirst,
    List.filterMap_append]
  exact congrArg (leading first ++ ·) (List.append_nil _)

theorem join_of_empty {base : Path} (h : base.text = "") (rest : Path) :
    base.join rest = rest := by
  simp [join, h]

/-- What is joined to a path stands behind it, unless it starts anew at the root. -/
theorem components_join {base rest : Path} (hrest : rest.text.toList.head? ≠ some '/')
    (hbase : base.text ≠ "") :
    (base.join rest).components = base.components ++ following rest.text.toList := by
  rw [join, if_neg hrest, if_neg (by simpa using hbase)]
  have hne : base.text.toList ≠ [] := by simpa using hbase
  split
  -- the base ends with a slash, and no other is written
  next hslash =>
    obtain ⟨a, ha⟩ := List.getLast?_eq_some_iff.1 (by simpa [endsWithSlash] using hslash)
    have htext : base.text = String.ofList (a ++ ['/']) := by rw [← ha, String.ofList_toList]
    have hjoin : base.text ++ rest.text = String.ofList (a ++ '/' :: rest.text.toList) := by
      rw [← String.toList_inj]
      simp [htext]
    rw [hjoin, components_slash, ← htext]
  next =>
    have hjoin : base.text ++ "/" ++ rest.text =
        String.ofList (base.text.toList ++ '/' :: rest.text.toList) := by
      rw [← String.toList_inj]
      simp
    rw [hjoin, components_slash, components_slash_end hne, String.ofList_toList]

/-! ## Writing -/

/-- Components that are read again once they are written: after the root, if it stands first,
each one is read from its own text. -/
inductive Written : List Component → Prop
  | relative {cs : List Component} (h : ∀ c ∈ cs, c.IsPlain) : Written cs
  | absolute {cs : List Component} (h : ∀ c ∈ cs, c.IsPlain) : Written (.root :: cs)

theorem filterMap_ofPiece?_text {cs : List Component} (h : ∀ c ∈ cs, c.IsPlain) :
    (cs.map fun c => c.text.toList).filterMap Component.ofPiece? = cs := by
  rw [List.filterMap_map]
  exact (List.filterMap_congr fun c hc => (h c hc).reads).trans List.filterMap_some

/-- The text of components falls into the texts of them. -/
theorem pieces_ofComponents {cs : List Component} (hslash : ∀ c ∈ cs, '/' ∉ c.text.toList)
    (hne : cs ≠ []) (hroot : cs ≠ [.root]) :
    Text.pieces '/' (ofComponents cs).text.toList = cs.map fun c => c.text.toList := by
  have hone : "/".toList = ['/'] := rfl
  rw [ofComponents.eq_3 cs hne hroot, String.toList_intercalate, hone, List.map_map,
    Text.pieces_eq_splitOn, List.splitOn_intercalate]
  · rfl
  · simpa using hslash
  · simpa using hne

/-- A component that can be written is read back in front, too. -/
theorem leading_text {c : Component} (h : c.IsPlain) : leading c.text.toList = [c] := by
  have hreads := h.reads
  unfold leading
  split
  next heq => rw [heq] at hreads; nomatch hreads
  next heq => rw [heq] at hreads; nomatch hreads
  next => rw [hreads]; rfl

/-- Written components are read again. -/
theorem components_ofComponents {cs : List Component} (h : Written cs) :
    (ofComponents cs).components = cs := by
  cases h with
  | relative h =>
    cases cs with
    | nil => rfl
    | cons c cs =>
      have hc := h c List.mem_cons_self
      have hpieces := pieces_ofComponents (fun d hd => (h d hd).noSlash) (List.cons_ne_nil c cs)
        fun heq => hc.ne_root (List.cons.inj heq).1
      -- the first component is read in front and the others behind it
      rw [components_eq hpieces, leading_text hc,
        filterMap_ofPiece?_text fun d hd => h d (List.mem_cons_of_mem c hd), List.singleton_append]
      refine .inl fun hnil => ?_
      have hreads := hc.reads
      rw [show c.text.toList = [] from hnil] at hreads
      nomatch hreads
  | absolute h =>
    rename_i cs
    cases cs with
    | nil => rfl
    | cons c cs =>
      -- the root is the empty piece in front of the first slash
      have hslash : ∀ d ∈ Component.root :: c :: cs, '/' ∉ d.text.toList := by
        rintro d (_ | ⟨_, hd⟩)
        · exact List.not_mem_nil
        · exact (h d hd).noSlash
      have hpieces := pieces_ofComponents hslash (List.cons_ne_nil _ _) (by simp)
      rw [components_eq hpieces (.inr (List.cons_ne_nil _ _)), filterMap_ofPiece?_text h]
      rfl

/-! ## The path without its last component -/

theorem pieces_ofPieces {first : List Char} {rest : List (List Char)}
    (hslash : ∀ piece ∈ first :: rest, '/' ∉ piece) (hroot : first :: rest ≠ [[]]) :
    Text.pieces '/' (ofPieces (first :: rest)).text.toList = first :: rest := by
  rw [ofPieces.eq_2 _ hroot, String.toList_ofList, Text.pieces_eq_splitOn,
    Text.glue_eq_intercalate, List.splitOn_intercalate _ hslash (List.cons_ne_nil _ _)]

/-- The first piece decides how the path starts. -/
theorem components_ofPieces {first : List Char} {rest : List (List Char)}
    (hslash : ∀ piece ∈ first :: rest, '/' ∉ piece) :
    (ofPieces (first :: rest)).components =
      leading first ++ rest.filterMap Component.ofPiece? := by
  by_cases hroot : first :: rest = [[]]
  · cases hroot
    rfl
  · refine components_eq (pieces_ofPieces hslash hroot) ?_
    rw [or_iff_not_imp_left, not_not]
    rintro rfl rfl
    exact hroot rfl

/-- Leaving out the blank pieces at the end leaves out no component, and what is left ends in
one unless it is the first piece alone. -/
theorem exists_withoutBlankEnd (first : List Char) (rest : List (List Char)) :
    ∃ kept, withoutBlankEnd (first :: rest).reverse = (first :: kept).reverse ∧ kept ⊆ rest ∧
      kept.filterMap Component.ofPiece? = rest.filterMap Component.ofPiece? ∧
        (kept = [] ∨ ∃ before piece c, kept = before ++ [piece] ∧
          Component.ofPiece? piece = some c) := by
  induction rest using List.reverseRecOn with
  | nil => exact ⟨[], rfl, List.Subset.refl _, rfl, .inl rfl⟩
  | append_singleton rest piece ih =>
    have hreverse : (first :: (rest ++ [piece])).reverse = piece :: (first :: rest).reverse := by
      rw [← List.cons_append, List.reverse_append]
      rfl
    rw [hreverse, withoutBlankEnd]
    · split
      -- a piece that is no component at the end is dropped
      next hblank =>
        obtain ⟨kept, hkept, hsub, hread, hlast⟩ := ih
        refine ⟨kept, hkept, fun q hq => List.mem_append_left _ (hsub hq), ?_, hlast⟩
        rw [hread, List.filterMap_append, List.filterMap_cons_none hblank]
        simp
      next hblank =>
        obtain ⟨c, hc⟩ := Option.ne_none_iff_exists'.1 hblank
        exact ⟨rest ++ [piece], hreverse.symm, List.Subset.refl _, rfl,
          .inr ⟨rest, piece, c, rfl, hc⟩⟩
    · simp

theorem dropLast_leading (piece : List Char) : (leading piece).dropLast = [] := by
  unfold leading
  split
  · rfl
  · rfl
  · cases Component.ofPiece? piece <;> rfl

/-- The directory of a path has all its components but the last. -/
theorem components_parent? (p : Path) :
    (p.parent?.getD ⟨""⟩).components = p.components.dropLast := by
  obtain ⟨first, rest, hpieces⟩ := List.exists_cons_of_ne_nil (Text.pieces_ne_nil '/' p.text.toList)
  obtain ⟨kept, hkept, hsub, hread, hlast⟩ := exists_withoutBlankEnd first rest
  have hcomponents : first ≠ [] ∨ rest ≠ [] →
      p.components = leading first ++ kept.filterMap Component.ofPiece? := fun hne => by
    rw [components_eq hpieces hne, hread]
  have hreverse (before : List (List Char)) (piece : List Char) :
      (first :: (before ++ [piece])).reverse = piece :: (first :: before).reverse := by
    rw [← List.cons_append, List.reverse_append]
    rfl
  rw [parent?, hpieces, hkept]
  obtain rfl | ⟨before, piece, c, rfl, hc⟩ := hlast
  · cases first with
    | nil =>
      cases rest with
      | nil =>
        have hp : p.components = [] := by rw [components, hpieces]
        rw [hp]
        rfl
      | cons =>
        rw [hcomponents (.inr (List.cons_ne_nil _ _))]
        rfl
    | cons =>
      rw [hcomponents (.inl (List.cons_ne_nil _ _)), List.filterMap_nil, List.append_nil,
        dropLast_leading]
      rfl
  -- the last piece that is a component is taken off, and what is no component before it
  · obtain ⟨outer, houter, hsub', hread', -⟩ := exists_withoutBlankEnd first before
    -- the pieces that are left are pieces of the path
    have hslash : ∀ piece ∈ first :: outer, '/' ∉ piece := by
      have hbefore : outer ⊆ rest := fun q hq => hsub (List.mem_append_left _ (hsub' hq))
      intro q hq
      have hmem : q ∈ Text.pieces '/' p.text.toList := by
        rw [hpieces]
        exact List.cons_subset_cons first hbefore hq
      exact Text.not_mem_of_mem_pieces hmem
    have hne : first ≠ [] ∨ rest ≠ [] := .inr fun hnil =>
      List.not_mem_nil (hnil ▸ hsub (List.mem_append_right before List.mem_cons_self))
    rw [hreverse]
    split
    next heq => exact absurd heq (List.cons_ne_nil _ _)
    next heq => exact absurd (List.cons.inj heq).2 (by simp)
    next heq =>
      rw [← (List.cons.inj heq).2, houter, List.reverse_reverse, Option.getD_some,
        components_ofPieces hslash, hread', hcomponents hne, List.filterMap_append]
      simp [hc]

end Path

end CallFlow
