import CallFlow.Proofs.Source.Lines

/-!
# Positions in 32-bit words

A position is computed with offsets of 32 bits: the starts of the lines are read off the bytes, the
line of an offset is found by halving, and its column comes from a slice of the text. Each of these
steps could fail, by an overflow, an index behind the end or a slice that cuts a character. Below
2³² bytes none of them does, and the position is that of `LineTable.position`.
-/

namespace CallFlow

open String (utf8Len)

namespace Source.Word

/-! ### Steps that can fail -/

/-- A sum, if it is not too large. -/
def add? (a b : UInt32) : Option UInt32 :=
  if a.toNat + b.toNat < UInt32.size then some (a + b) else none

/-- A difference, if it is not negative. -/
def sub? (a b : UInt32) : Option UInt32 :=
  if b ≤ a then some (a - b) else none

/-- The offsets at which lines start: zero, and behind the byte of each newline. -/
def starts? (bs : List UInt8) : Option (List UInt32) :=
  ((bs.zipIdx.filter (·.1 = newline)).mapM fun x => add? (UInt32.ofNat x.2) 1).map (0 :: ·)

/-- Looks for the first entry without a property, in a part of an array before which all entries
have it and behind which none has. -/
def search (p : UInt32 → Bool) (xs : Array UInt32) (low high : Nat) (h : high ≤ xs.size) : Nat :=
  if hlt : low < high then
    let middle := low + (high - low) / 2
    if p xs[middle] then search p xs (middle + 1) high h
    else search p xs low middle (by omega)
  else low
termination_by high - low

/-- How many entries at the start of an array have a property, if none of the others has. -/
def partitionPoint (p : UInt32 → Bool) (xs : Array UInt32) : Nat :=
  search p xs 0 xs.size (Nat.le_refl _)

/-- A text cut at an offset, if it is a boundary. -/
def splitAt? : List Char → Nat → Option (List Char × List Char)
  | cs, 0 => some ([], cs)
  | [], _ + 1 => none
  | c :: rest, offset + 1 =>
    if c.utf8Size ≤ offset + 1 then
      (splitAt? rest (offset + 1 - c.utf8Size)).map fun parts => (c :: parts.1, parts.2)
    else none

/-- The text between two offsets, if they are boundaries in order. -/
def slice? (cs : List Char) (start stop : Nat) : Option (List Char) :=
  if start ≤ stop then
    (splitAt? cs start).bind fun parts => (splitAt? parts.2 (stop - start)).map Prod.fst
  else none

/-- The column of an offset on a line. -/
def column? (cs : List Char) (start offset : UInt32) : Option Nat :=
  match slice? cs start.toNat offset.toNat with
  | some piece => some (units piece)
  | none => (sub? offset start).map UInt32.toNat

/-- The position of an offset. -/
def position? (text : String) (offset : UInt32) : Option Position := do
  let starts ← starts? (bytes text.toList)
  let index := max (partitionPoint (· ≤ offset) starts.toArray) 1 - 1
  let start ← starts.toArray[index]?
  let column ← column? text.toList start offset
  return ⟨index + 1, column⟩

/-! ### Line starts -/

theorem add?_ofNat {n : Nat} (h : n + 1 < UInt32.size) :
    add? (UInt32.ofNat n) 1 = some (UInt32.ofNat (n + 1)) := by
  have hn : (UInt32.ofNat n).toNat = n := UInt32.toNat_ofNat_of_lt' (by omega)
  have hone : (1 : UInt32).toNat = 1 := rfl
  rw [add?, hn, hone, if_pos h, UInt32.ofNat_add]
  rfl

/-- Behind each newline a line starts. -/
theorem newlines_eq (cs : List Char) (first : Nat) :
    (((bytes cs).zipIdx first).filter (·.1 = newline)).map (·.2 + 1) =
      ((linesFrom first cs).map Line.start).tail := by
  -- a line has no newline before its end
  have hplain : ∀ {line : List Char} (first : Nat), '\n' ∉ line →
      ((bytes line).zipIdx first).filter (·.1 = newline) = [] := by
    intro line first hline
    refine List.filter_eq_nil_iff.2 fun x hx hnewline => newline_notMem_bytes hline ?_
    have hbyte : x.1 = newline := by simpa using hnewline
    exact hbyte ▸ List.fst_mem_of_mem_zipIdx hx
  induction cs using lines_induction generalizing first with
  | last line hline => rw [hplain first hline, linesFrom_last hline]; rfl
  -- behind the newline the next line starts
  | more line rest hline ih =>
    obtain ⟨l, more, hlines, hstart⟩ := exists_linesFrom rest (first + utf8Len line + 1)
    rw [bytes_line, List.zipIdx_append, List.filter_append, hplain first hline, List.nil_append,
      List.zipIdx_cons, List.filter_cons_of_pos (by simp), List.map_cons, length_bytes, ih,
      linesFrom_line hline, List.map_cons, List.tail_cons, hlines, List.map_cons, hstart]
    rfl

/-- The start of a line, as far as it fits. -/
def startWord (l : Line) : UInt32 := UInt32.ofNat l.start

theorem mapM_eq_some {α β : Type} {f : α → Option β} {g : α → β} {as : List α}
    (h : ∀ a ∈ as, f a = some (g a)) : as.mapM f = some (as.map g) := by
  induction as with
  | nil => rfl
  | cons a as ih =>
    obtain ⟨ha, has⟩ := List.forall_mem_cons.1 h
    rw [List.mapM_cons, ha, ih has]
    rfl

/-- The starts are read off the bytes without an overflow. -/
theorem starts?_eq {cs : List Char} (h : utf8Len cs < UInt32.size) :
    starts? (bytes cs) =
      some ((linesFrom 0 cs).map startWord) := by
  obtain ⟨l, more, hlines, hstart⟩ := exists_linesFrom cs 0
  have hsum : ∀ x ∈ (bytes cs).zipIdx.filter (·.1 = newline),
      add? (UInt32.ofNat x.2) 1 = some (UInt32.ofNat (x.2 + 1)) := by
    intro x hx
    have hlt := List.snd_lt_of_mem_zipIdx (List.mem_of_mem_filter hx)
    rw [length_bytes] at hlt
    exact add?_ofNat (by omega)
  have hbehind := congrArg (List.map UInt32.ofNat) (newlines_eq cs 0)
  rw [hlines, List.map_cons, List.tail_cons, List.map_map, List.map_map] at hbehind
  rw [starts?, mapM_eq_some hsum, hlines, List.map_cons, startWord, hstart]
  exact congrArg (fun starts => some (0 :: starts)) hbehind

/-! ### The search for a line -/

/-- The search narrows its bounds around the point where the predicate changes. -/
theorem search_eq {p : UInt32 → Bool} {xs : Array UInt32} {low high n : Nat}
    {h : high ≤ xs.size} (hlow : low ≤ n) (hhigh : n ≤ high)
    (hbefore : ∀ i (hi : i < xs.size), i < n → p xs[i] = true)
    (hbehind : ∀ i (hi : i < xs.size), n ≤ i → p xs[i] = false) :
    search p xs low high h = n := by
  fun_induction search p xs low high h with
  | case1 low high h hlt middle hp ih =>
    refine ih ?_ hhigh
    by_contra hle
    rw [hbehind middle (by omega) (by omega)] at hp
    cases hp
  | case2 low high h hlt middle hp ih =>
    refine ih hlow ?_
    by_contra hle
    exact hp (hbefore middle (by omega) (by omega))
  | case3 low high h hge => omega

/-- Halving finds how many entries at the start have a property. -/
theorem partitionPoint_eq {p : UInt32 → Bool} {front back : List UInt32}
    (hfront : ∀ x ∈ front, p x = true) (hback : ∀ x ∈ back, p x = false) :
    partitionPoint p (front ++ back).toArray = front.length := by
  refine search_eq (Nat.zero_le _) (by simp) (fun i hi hlt => ?_) fun i hi hle => ?_
  · rw [List.getElem_toArray, List.getElem_append_left hlt]
    exact hfront _ (List.getElem_mem _)
  · rw [List.getElem_toArray, List.getElem_append_right hle]
    exact hback _ (List.getElem_mem _)

/-- The search counts the lines that start at an offset or before it. -/
theorem partitionPoint_lines {ls : List Line} (h : ls.Pairwise fun a b => a.start < b.start)
    (hsmall : ∀ l ∈ ls, l.start < UInt32.size) (offset : UInt32) :
    partitionPoint (· ≤ offset) (ls.map startWord).toArray =
      (ls.takeWhile fun l => l.start ≤ offset.toNat).length := by
  have hword : ∀ l ∈ ls, (startWord l ≤ offset ↔ l.start ≤ offset.toNat) := fun l hl => by
    rw [UInt32.le_iff_toNat_le, startWord, UInt32.toNat_ofNat_of_lt' (hsmall l hl)]
  conv_lhs => rw [← List.takeWhile_append_dropWhile (p := (·.start ≤ offset.toNat)) (l := ls)]
  rw [List.map_append, partitionPoint_eq, List.length_map]
  · refine List.forall_mem_map.2 fun l hl => decide_eq_true ?_
    have hle : l.start ≤ offset.toNat := by simpa using List.mem_takeWhile_imp hl
    exact (hword l (List.takeWhile_subset _ hl)).2 hle
  · refine List.forall_mem_map.2 fun l hl => decide_eq_false fun hle => ?_
    have hgt := start_of_mem_dropWhile h hl
    exact Nat.not_le.2 hgt ((hword l (List.dropWhile_subset _ hl)).1 hle)

/-! ### Slices -/

/-- Splitting at a boundary splits the characters. -/
theorem splitAt?_append (before after : List Char) :
    splitAt? (before ++ after) (utf8Len before) = some (before, after) := by
  induction before with
  | nil => cases after <;> rfl
  | cons c before ih =>
    have hpos := c.utf8Size_pos
    obtain ⟨n, hn⟩ : ∃ n, utf8Len before + c.utf8Size = n + 1 :=
      Nat.exists_eq_add_one.2 (by omega)
    rw [List.cons_append, String.utf8Len_cons, hn, splitAt?, ← hn, if_pos (by omega),
      Nat.add_sub_cancel, ih]
    rfl

/-- Units are counted where the text can be cut. -/
theorem unitsBefore?_eq (cs : List Char) (distance : Nat) :
    unitsBefore? cs distance = (splitAt? cs distance).map fun parts => units parts.1 := by
  induction cs generalizing distance with
  | nil => cases distance <;> rfl
  | cons c rest ih =>
    cases distance with
    | zero => rfl
    | succ distance =>
      rw [unitsBefore?, splitAt?]
      · split
        · rw [ih, Option.map_map, Option.map_map]
          rfl
        · rfl
      · exact nofun

/-! ### Positions -/

section

variable {text : String} {offset : UInt32} {above line rest : List Char}
  (h : OnLine text.toList offset.toNat above line rest)
include h

/-- The column is found without a slice that cuts a character and without a negative number. -/
theorem column?_eq {start : UInt32} (hstart : start.toNat = utf8Len above) :
    column? text.toList start offset =
      some ((unitsBefore? (line ++ rest.take 1) (offset.toNat - utf8Len above)).getD
        (offset.toNat - utf8Len above)) := by
  have hle := h.start_le
  have hslice : slice? text.toList start.toNat offset.toNat =
      (splitAt? (line ++ rest) (offset.toNat - utf8Len above)).map Prod.fst := by
    rw [slice?, hstart, if_pos hle, h.split, splitAt?_append]
    rfl
  rw [column?, hslice, h.unitsBefore?_eq, unitsBefore?_eq]
  cases splitAt? (line ++ rest) (offset.toNat - utf8Len above) with
  | some parts => rfl
  | none =>
    have hsub : start ≤ offset := UInt32.le_iff_toNat_le.2 (by omega)
    simp only [Option.map_none, Option.getD_none, sub?, if_pos hsub, Option.map_some,
      UInt32.toNat_sub_of_le _ _ hsub, hstart]

/-- Below 2³² bytes the position is found. -/
theorem position?_onLine (hsize : utf8Len text.toList < UInt32.size) :
    position? text offset = some ((LineTable.ofText text).position offset.toNat) := by
  obtain ⟨front, hfront, htake⟩ := h.takeWhile_linesFrom 0
  simp only [Nat.zero_add] at htake
  -- all starts fit in a word, since the text does
  have hsmall : ∀ l ∈ linesFrom 0 text.toList, l.start < UInt32.size := fun l hl => by
    have := (start_of_mem_linesFrom hl).2
    omega
  -- the search counts the lines that start at the offset or before it
  have hpoint : partitionPoint (· ≤ offset) ((linesFrom 0 text.toList).map startWord).toArray =
      front.length + 1 := by
    rw [partitionPoint_lines (pairwise_linesFrom _ _) hsmall, htake, List.length_append,
      List.length_singleton]
  have hentry : ((linesFrom 0 text.toList).map startWord).toArray[front.length]? =
      some (UInt32.ofNat (utf8Len above)) := by
    rw [List.getElem?_toArray, List.getElem?_map,
      ← List.takeWhile_append_dropWhile (p := fun l => l.start ≤ offset.toNat)
        (l := linesFrom 0 text.toList), htake]
    simp [startWord]
  have hindex : max (front.length + 1) 1 - 1 = front.length := by omega
  have hstart : (UInt32.ofNat (utf8Len above)).toNat = utf8Len above :=
    UInt32.toNat_ofNat_of_lt' (Nat.lt_of_le_of_lt h.start_le offset.toNat_lt)
  rw [LineTable.position_onLine h, position?, starts?_eq hsize]
  simp only [Option.bind_eq_bind, Option.bind_some, hpoint, hindex, hentry, column?_eq h hstart]
  rw [hfront, Nat.add_comm]
  rfl

end

end Source.Word

open Source

/-- **Positions are exact and injective.** The line counts the newlines among the bytes before an
offset, and the column the UTF-16 units from the start of the line, where these bytes end at a
character, and otherwise the bytes. On boundaries positions follow each other as the offsets do, so
that no two of them have the same position. In a text of less than 2³² bytes every offset of 32 bits
has its position found in words of 32 bits, without a step that fails. -/
theorem SourceFile.position_exact (file : SourceFile) :
    (∀ offset, (file.position offset).line =
      1 + ((bytes file.text.toList).take offset).count newline) ∧
    (∀ offset, IsBoundary file.text.toList offset →
      ∃ above piece after, file.text.toList = above ++ (piece ++ after) ∧
        utf8Len above = lineStart (bytes file.text.toList) offset ∧
        utf8Len above + utf8Len piece = offset ∧
        (file.position offset).column = units piece) ∧
    (∀ offset, ¬ IsBoundary file.text.toList offset →
      (file.position offset).column =
        offset - lineStart (bytes file.text.toList) offset) ∧
    (∀ a b, IsBoundary file.text.toList a → IsBoundary file.text.toList b →
      (a < b ↔ (file.position a).Before (file.position b)) ∧
      (file.position a = file.position b → a = b)) ∧
    (file.text.utf8ByteSize < 2 ^ 32 → ∀ offset : UInt32,
      Word.position? file.text offset = some (file.position offset.toNat)) := by
  refine ⟨LineTable.line_position file.text,
    fun offset => LineTable.column_position_of_isBoundary,
    fun offset => LineTable.column_position_of_not_isBoundary, fun a b ha hb => ?_,
    fun hsize offset => ?_⟩
  · rcases Nat.lt_trichotomy a b with hlt | rfl | hgt
    · have hbefore := LineTable.position_before ha hb hlt
      exact ⟨iff_of_true hlt hbefore, fun heq => absurd heq hbefore.ne⟩
    · exact ⟨iff_of_false (Nat.lt_irrefl a) fun h => h.ne rfl, fun _ => rfl⟩
    · have hbefore := LineTable.position_before hb ha hgt
      exact ⟨iff_of_false hgt.asymm hbefore.asymm, fun heq => absurd heq.symm hbefore.ne⟩
  · obtain ⟨above, line, rest, h⟩ := exists_onLine file.text.toList offset.toNat
    exact Word.position?_onLine h (by rwa [String.utf8Len_toList])

/-- Behind a character of four bytes and two units, and inside it. -/
theorem SourceFile.position_behind_pair :
    let file := SourceFile.ofText ⟨"a.js"⟩ "é\n😀f()"
    IsBoundary file.text.toList 3 ∧ IsBoundary file.text.toList 7 ∧
      (file.position 3).Before (file.position 7) ∧
      ¬ IsBoundary file.text.toList 5 ∧ (file.position 5).column = 2 ∧
      Word.position? file.text 7 = some (file.position 7) ∧ file.position 7 = ⟨2, 2⟩ := by
  intro file
  have hboundaries : IsBoundary "é\n😀f()".toList 3 ∧ IsBoundary "é\n😀f()".toList 7 ∧
      ¬ IsBoundary "é\n😀f()".toList 5 := by decide
  obtain ⟨hfirst, hsecond, hcut⟩ := hboundaries
  obtain ⟨-, -, hinside, hbefore, hword⟩ := file.position_exact
  exact ⟨hfirst, hsecond, (hbefore 3 7 hfirst hsecond).1.1 (by decide), hcut,
    (hinside 5 hcut).trans (by decide),
    hword (by decide) 7, by decide⟩

end CallFlow
