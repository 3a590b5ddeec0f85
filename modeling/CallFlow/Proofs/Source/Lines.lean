import CallFlow.SourceFile
import Mathlib.Data.List.DropRight
import Mathlib.Data.String.Basic

/-!
# Lines of a text

An offset splits a text into the lines above it, the line it is on, and the rest (`OnLine`). The
newlines among the bytes before the offset are those that end the lines above, and the last of
these bytes is where the line starts; a lookup in the line table finds that line and counts the
units between its start and the offset.
-/

namespace CallFlow

open String (utf8Len)

namespace Source

/-! ### Bytes -/

/-- The byte of a newline. -/
def newline : UInt8 := 10

/-- The bytes of a text. -/
def bytes (cs : List Char) : List UInt8 := cs.flatMap String.utf8EncodeChar

@[simp] theorem bytes_append (cs ds : List Char) : bytes (cs ++ ds) = bytes cs ++ bytes ds :=
  List.flatMap_append

@[simp] theorem length_bytes (cs : List Char) : (bytes cs).length = utf8Len cs := by
  induction cs with
  | nil => rfl
  | cons c cs ih =>
    rw [String.utf8Len_cons, ← ih, bytes, List.flatMap_cons, List.length_append,
      String.length_utf8EncodeChar, Nat.add_comm]
    rfl

/-- Of all characters only a newline has the byte of a newline in it. -/
theorem newline_mem_iff (c : Char) : newline ∈ String.utf8EncodeChar c ↔ c = '\n' := by
  have hc : c = '\n' ↔ c.val.toNat = 10 := by
    rw [← Char.val_inj, ← UInt32.toNat_inj]
    rfl
  have hsize : c.val.toNat < 2 ^ 32 := c.val.toNat_lt
  rw [hc]
  unfold String.utf8EncodeChar newline
  generalize c.val.toNat = value at hsize
  simp only
  split_ifs <;> simp [← UInt8.toNat_inj] <;> omega

/-- Only a newline has its byte. -/
theorem count_utf8EncodeChar (c : Char) :
    (String.utf8EncodeChar c).count newline = if c = '\n' then 1 else 0 := by
  split
  case isTrue h =>
    rw [h]
    decide
  case isFalse h => exact List.count_eq_zero.2 fun hmem => h ((newline_mem_iff c).1 hmem)

/-- There are as many bytes of newlines as there are newlines. -/
theorem count_bytes (cs : List Char) : (bytes cs).count newline = cs.count '\n' := by
  induction cs with
  | nil => rfl
  | cons c cs ih =>
    rw [bytes, List.flatMap_cons, List.count_append, count_utf8EncodeChar, ← bytes, ih,
      List.count_cons, Nat.add_comm]
    simp

theorem bytes_line (line rest : List Char) :
    bytes (line ++ '\n' :: rest) = bytes line ++ newline :: bytes rest := by
  rw [bytes_append]
  rfl

theorem newline_notMem_bytes {cs : List Char} (h : '\n' ∉ cs) : newline ∉ bytes cs := by
  rw [← List.count_eq_zero, count_bytes, List.count_eq_zero]
  exact h

/-! ### Where a line starts -/

/-- Where the line of an offset starts: behind the last newline before the offset. -/
def lineStart (bs : List UInt8) (offset : Nat) : Nat :=
  ((bs.take offset).rdropWhile (· ≠ newline)).length

/-- Whether lines end where a text ends, so that another line can follow. -/
def Whole (above : List Char) : Prop := above = [] ∨ ∃ before, above = before ++ ['\n']

theorem Whole.eq_nil {above : List Char} (h : Whole above) (hline : '\n' ∉ above) :
    above = [] := by
  obtain rfl | ⟨before, rfl⟩ := h
  · rfl
  · simp at hline

/-- What is above starts a line again. -/
theorem Whole.of_append {line above : List Char} (h : Whole (line ++ '\n' :: above)) :
    Whole above := by
  rcases List.eq_nil_or_concat' above with rfl | ⟨before, last, rfl⟩
  · exact .inl rfl
  · refine .inr ⟨before, ?_⟩
    obtain h | ⟨front, hfront⟩ := h
    · simp at h
    · have hends : (line ++ '\n' :: before) ++ [last] = front ++ ['\n'] := by simpa using hfront
      rw [(List.append_inj' hends rfl).2]

theorem Whole.line_append {above : List Char} (h : Whole above) (line : List Char) :
    Whole (line ++ '\n' :: above) := by
  obtain rfl | ⟨before, rfl⟩ := h
  · exact .inr ⟨line, rfl⟩
  · exact .inr ⟨line ++ '\n' :: before, by simp⟩

/-- What stands behind the last newline is cut off. -/
theorem rdropWhile_bytes {above : List Char} (h : Whole above) {bs : List UInt8}
    (hbs : newline ∉ bs) : (bytes above ++ bs).rdropWhile (· ≠ newline) = bytes above := by
  induction bs using List.reverseRecOn with
  | nil =>
    rw [List.append_nil]
    obtain rfl | ⟨before, rfl⟩ := h
    · rfl
    · have hend : bytes ['\n'] = [newline] := rfl
      rw [bytes_append, hend, List.rdropWhile_concat, if_neg (by simp)]
  | append_singleton bs b ih =>
    obtain ⟨hbs, hb⟩ : newline ∉ bs ∧ newline ≠ b := by simpa using hbs
    rw [← List.append_assoc, List.rdropWhile_concat, if_pos (by simpa using hb.symm), ih hbs]

/-! ### The line of an offset -/

/-- An offset is on a line: the lines above it end before the offset, and the line, as far as it
goes without its newline, does not, unless it is the last one. -/
structure OnLine (cs : List Char) (offset : Nat) (above line rest : List Char) : Prop where
  split : cs = above ++ (line ++ rest)
  whole : Whole above
  plain : '\n' ∉ line
  start_le : utf8Len above ≤ offset
  stop : rest = [] ∨ offset ≤ utf8Len above + utf8Len line ∧ ∃ below, rest = '\n' :: below

/-- A text is a line, or a line with a newline and then a text. -/
@[elab_as_elim]
theorem lines_induction {motive : List Char → Prop}
    (last : ∀ line, '\n' ∉ line → motive line)
    (more : ∀ line rest, '\n' ∉ line → motive rest → motive (line ++ '\n' :: rest))
    (cs : List Char) : motive cs := by
  suffices hafter : ∀ line, '\n' ∉ line → motive (line ++ cs) from hafter [] (by simp)
  induction cs with
  | nil => exact fun line hline => (List.append_nil line).symm ▸ last line hline
  | cons c cs ih =>
    intro line hline
    by_cases hc : c = '\n'
    · rw [hc]
      exact more line cs hline (ih [] (by simp))
    · rw [List.append_cons]
      exact ih _ (by simpa [hline] using Ne.symm hc)

theorem utf8Len_line (line rest : List Char) :
    utf8Len (line ++ '\n' :: rest) = utf8Len line + 1 + utf8Len rest := by
  have hsize : ('\n').utf8Size = 1 := rfl
  rw [String.utf8Len_append, String.utf8Len_cons, hsize]
  omega

/-- Every offset is on a line. -/
theorem exists_onLine (cs : List Char) (offset : Nat) :
    ∃ above line rest, OnLine cs offset above line rest := by
  induction cs using lines_induction generalizing offset with
  | last line hline => exact ⟨[], line, [], by simp, .inl rfl, hline, Nat.zero_le _, .inl rfl⟩
  | more line below hline ih =>
    rcases Nat.lt_or_ge (utf8Len line) offset with hlt | hge
    · obtain ⟨above, next, rest, h⟩ := ih (offset - (utf8Len line + 1))
      have hstart := h.start_le
      refine ⟨line ++ '\n' :: above, next, rest, by simp [h.split], h.whole.line_append line,
        h.plain, ?_, h.stop.imp_right fun ⟨hstop, hrest⟩ => ⟨?_, hrest⟩⟩ <;>
      · rw [utf8Len_line]
        omega
    · exact ⟨[], line, '\n' :: below, rfl, .inl rfl, hline, Nat.zero_le _,
        .inr ⟨by simpa using hge, below, rfl⟩⟩

namespace OnLine

variable {cs above line rest : List Char} {offset : Nat} (h : OnLine cs offset above line rest)
include h

/-- No newline lies between the start of the line and the offset. -/
theorem exists_take : ∃ bs, newline ∉ bs ∧ (bytes cs).take offset = bytes above ++ bs := by
  refine ⟨(bytes line).take (offset - utf8Len above), ?_, ?_⟩
  · exact fun hmem => newline_notMem_bytes h.plain (List.mem_of_mem_take hmem)
  · rw [h.split, bytes_append, bytes_append, List.take_append, length_bytes,
      List.take_of_length_le (by simpa using h.start_le), List.append_cancel_left_eq]
    rw [List.take_append, length_bytes]
    obtain hrest | ⟨hstop, -⟩ := h.stop
    · simp [hrest, bytes]
    · have hzero : offset - utf8Len above - utf8Len line = 0 := by omega
      rw [hzero, List.take_zero, List.append_nil]

theorem count_take : ((bytes cs).take offset).count newline = above.count '\n' := by
  obtain ⟨bs, hbs, htake⟩ := h.exists_take
  rw [htake, List.count_append, List.count_eq_zero.2 hbs, count_bytes, Nat.add_zero]

theorem lineStart_eq : lineStart (bytes cs) offset = utf8Len above := by
  obtain ⟨bs, hbs, htake⟩ := h.exists_take
  rw [lineStart, htake, rdropWhile_bytes h.whole hbs, length_bytes]

end OnLine

/-! ### The line table -/

/-- The last line has no newline. -/
theorem linesFrom_last {line : List Char} (hline : '\n' ∉ line) (offset : Nat) :
    linesFrom offset line = [⟨offset, line⟩] := by
  induction line generalizing offset with
  | nil => rfl
  | cons c line ih =>
    obtain ⟨hc, hline⟩ : '\n' ≠ c ∧ '\n' ∉ line := by simpa using hline
    rw [linesFrom, if_neg hc.symm, ih hline]

/-- The other lines have theirs. -/
theorem linesFrom_line {line : List Char} (hline : '\n' ∉ line) (rest : List Char)
    (offset : Nat) :
    linesFrom offset (line ++ '\n' :: rest) =
      ⟨offset, line ++ ['\n']⟩ :: linesFrom (offset + utf8Len line + 1) rest := by
  induction line generalizing offset with
  | nil => rfl
  | cons c line ih =>
    obtain ⟨hc, hline⟩ : '\n' ≠ c ∧ '\n' ∉ line := by simpa using hline
    rw [List.cons_append, linesFrom, if_neg hc.symm, ih hline, String.utf8Len_cons,
      Nat.add_assoc offset, Nat.add_comm (utf8Len line)]
    rfl

theorem exists_linesFrom (cs : List Char) (offset : Nat) :
    ∃ l more, linesFrom offset cs = l :: more ∧ l.start = offset := by
  induction cs using lines_induction with
  | last line hline => exact ⟨_, _, linesFrom_last hline offset, rfl⟩
  | more line rest hline ih => exact ⟨_, _, linesFrom_line hline rest offset, rfl⟩

/-- All lines of a text start in it or at its end. -/
theorem start_of_mem_linesFrom {cs : List Char} {offset : Nat} {l : Line}
    (h : l ∈ linesFrom offset cs) : offset ≤ l.start ∧ l.start ≤ offset + utf8Len cs := by
  induction cs using lines_induction generalizing offset with
  | last line hline =>
    rw [linesFrom_last hline, List.mem_singleton] at h
    subst h
    exact ⟨Nat.le_refl _, Nat.le_add_right _ _⟩
  | more line rest hline ih =>
    rw [utf8Len_line]
    rw [linesFrom_line hline] at h
    obtain rfl | h := List.mem_cons.1 h
    · exact ⟨Nat.le_refl _, Nat.le_add_right _ _⟩
    · obtain ⟨hge, hle⟩ := ih h
      omega

/-- The lines start one after the other. -/
theorem pairwise_linesFrom (cs : List Char) (offset : Nat) :
    (linesFrom offset cs).Pairwise fun a b => a.start < b.start := by
  induction cs using lines_induction generalizing offset with
  | last line hline =>
    rw [linesFrom_last hline]
    exact List.pairwise_singleton _ _
  | more line rest hline ih =>
    rw [linesFrom_line hline]
    refine List.pairwise_cons.2 ⟨fun l hl => ?_, ih _⟩
    have hfirst : offset < offset + utf8Len line + 1 := by omega
    exact Nat.lt_of_lt_of_le hfirst (start_of_mem_linesFrom hl).1

/-- Behind the lines that start at an offset or before it, all lines start behind it. -/
theorem start_of_mem_dropWhile {ls : List Line} (h : ls.Pairwise fun a b => a.start < b.start)
    {offset : Nat} {l : Line} (hl : l ∈ ls.dropWhile fun l => l.start ≤ offset) :
    offset < l.start := by
  induction ls with
  | nil => simp at hl
  | cons first ls ih =>
    obtain ⟨hfirst, hrest⟩ := List.pairwise_cons.1 h
    by_cases hle : first.start ≤ offset
    · rw [List.dropWhile_cons_of_pos (by simpa using hle)] at hl
      exact ih hrest hl
    · rw [List.dropWhile_cons_of_neg (by simpa using hle)] at hl
      obtain rfl | hl := List.mem_cons.1 hl
      · exact Nat.not_le.1 hle
      · exact Nat.lt_trans (Nat.not_le.1 hle) (hfirst l hl)

/-- The lines that start at an offset or before it are the lines above it and the line it is on. -/
theorem OnLine.takeWhile_linesFrom {cs above line rest : List Char} {offset : Nat}
    (h : OnLine cs offset above line rest) (first : Nat) :
    ∃ front : List Line, front.length = above.count '\n' ∧
      (linesFrom first cs).takeWhile (fun l => l.start ≤ first + offset) =
        front ++ [⟨first + utf8Len above, line ++ rest.take 1⟩] := by
  obtain ⟨rfl, hwhole, hline, hstart, hstop⟩ := h
  induction above using lines_induction generalizing first offset with
  | last above habove =>
    obtain rfl := hwhole.eq_nil habove
    refine ⟨[], rfl, ?_⟩
    obtain rfl | ⟨hstop, below, rfl⟩ := hstop
    · rw [List.append_nil, List.nil_append, linesFrom_last hline]
      simp
    · rw [List.nil_append, linesFrom_line hline, List.takeWhile_cons_of_pos (by simp)]
      -- the next line starts behind the newline, and that is not before the offset
      have hnext : (linesFrom (first + utf8Len line + 1) below).takeWhile
          (fun l => l.start ≤ first + offset) = [] := by
        refine List.takeWhile_eq_nil_iff.2 fun hlength => ?_
        have hge := (start_of_mem_linesFrom (List.get_mem _ ⟨0, hlength⟩)).1
        rw [String.utf8Len_nil] at hstop
        simp only [decide_eq_true_eq, not_le]
        omega
      rw [hnext]
      rfl
  | more before above hbefore ih =>
    rw [utf8Len_line] at hstart hstop
    have hafter : utf8Len above ≤ offset - (utf8Len before + 1) := by omega
    obtain ⟨front, hfront, htake⟩ := ih (first + utf8Len before + 1) hwhole.of_append hafter
      (hstop.imp_right fun ⟨hstop, hrest⟩ => ⟨by omega, hrest⟩)
    refine ⟨⟨first, before ++ ['\n']⟩ :: front, ?_, ?_⟩
    · rw [List.length_cons, hfront, List.count_append, List.count_eq_zero.2 hbefore]
      simp
    · have hoffset : first + utf8Len before + 1 + (offset - (utf8Len before + 1)) =
          first + offset := by omega
      rw [hoffset] at htake
      rw [List.append_assoc, List.cons_append, linesFrom_line hbefore,
        List.takeWhile_cons_of_pos (by simp), htake, utf8Len_line, List.cons_append]
      congr 4
      omega

/-! ### Columns -/

/-- The UTF-16 units of a text. -/
def units (cs : List Char) : Nat := cs.foldr (Text.units16 · + ·) 0

theorem units_cons (c : Char) (cs : List Char) : units (c :: cs) = Text.units16 c + units cs := rfl

@[simp] theorem units_append (cs ds : List Char) : units (cs ++ ds) = units cs + units ds := by
  induction cs with
  | nil => exact (Nat.zero_add _).symm
  | cons c cs ih => rw [List.cons_append, units_cons, ih, units_cons, Nat.add_assoc]

theorem units_pos {cs : List Char} (h : cs ≠ []) : 0 < units cs := by
  cases cs with
  | nil => exact absurd rfl h
  | cons c cs =>
    have hc : 0 < Text.units16 c := by
      unfold Text.units16
      split <;> decide
    rw [units_cons]
    omega

/-- Whether a character starts or the text ends at an offset. -/
def IsBoundary (cs : List Char) (offset : Nat) : Prop :=
  ∃ before after, cs = before ++ after ∧ utf8Len before = offset

theorem unitsBefore?_cons {distance : Nat} (h : distance ≠ 0) (c : Char) (rest : List Char) :
    unitsBefore? (c :: rest) distance =
      if c.utf8Size ≤ distance then
        (unitsBefore? rest (distance - c.utf8Size)).map (Text.units16 c + ·)
      else none := by
  cases distance with
  | zero => exact absurd rfl h
  | succ n => rfl

/-- The units up to a distance are those of what stands before and those behind that. -/
theorem unitsBefore?_add (before after : List Char) (distance : Nat) :
    unitsBefore? (before ++ after) (utf8Len before + distance) =
      (unitsBefore? after distance).map (units before + ·) := by
  induction before with
  | nil => simp [units]
  | cons c before ih =>
    have hpos := c.utf8Size_pos
    have hdistance : utf8Len before + c.utf8Size + distance - c.utf8Size =
        utf8Len before + distance := by omega
    rw [List.cons_append, String.utf8Len_cons, unitsBefore?_cons (by omega), if_pos (by omega),
      hdistance, ih, Option.map_map, units_cons]
    exact congrArg (Option.map · _) (funext fun n => (Nat.add_assoc ..).symm)

theorem unitsBefore?_zero (cs : List Char) : unitsBefore? cs 0 = some 0 := by
  cases cs <;> rfl

theorem unitsBefore?_of_append (before after : List Char) :
    unitsBefore? (before ++ after) (utf8Len before) = some (units before) := by
  have hadd := unitsBefore?_add before after 0
  rwa [Nat.add_zero, unitsBefore?_zero] at hadd

/-- What stands behind a distance does not count. -/
theorem unitsBefore?_append {cs : List Char} {distance : Nat} (h : distance ≤ utf8Len cs)
    (after : List Char) : unitsBefore? (cs ++ after) distance = unitsBefore? cs distance := by
  induction cs generalizing distance with
  | nil =>
    obtain rfl : distance = 0 := Nat.le_zero.1 h
    cases after <;> rfl
  | cons c cs ih =>
    rcases Nat.eq_zero_or_pos distance with rfl | hpos
    · rfl
    · rw [String.utf8Len_cons] at h
      rw [List.cons_append, unitsBefore?_cons hpos.ne', unitsBefore?_cons hpos.ne',
        ih (by omega)]

/-- Units are counted up to boundaries. -/
theorem isBoundary_iff {cs : List Char} {offset : Nat} :
    IsBoundary cs offset ↔ (unitsBefore? cs offset).isSome = true := by
  constructor
  · rintro ⟨before, after, rfl, rfl⟩
    rw [unitsBefore?_of_append]
    rfl
  · intro h
    -- the characters are counted off one by one, until the distance is used up
    fun_induction unitsBefore? cs offset with
    | case1 cs => exact ⟨[], cs, rfl, rfl⟩
    | case2 => cases h
    | case3 c rest distance hne hle ih =>
      obtain ⟨before, after, rfl, hbefore⟩ := ih (by simpa using h)
      refine ⟨c :: before, after, rfl, ?_⟩
      rw [String.utf8Len_cons, hbefore]
      omega
    | case4 => cases h

instance (cs : List Char) (offset : Nat) : Decidable (IsBoundary cs offset) :=
  decidable_of_iff _ isBoundary_iff.symm

namespace OnLine

variable {cs above line rest : List Char} {offset : Nat} (h : OnLine cs offset above line rest)
include h

/-- The newline behind a line does not count, nor does what follows it. -/
theorem unitsBefore?_eq : unitsBefore? (line ++ rest.take 1) (offset - utf8Len above) =
    unitsBefore? (line ++ rest) (offset - utf8Len above) := by
  obtain hrest | ⟨hstop, -⟩ := h.stop
  · rw [hrest, List.take_nil]
  · rw [unitsBefore?_append (by omega), unitsBefore?_append (by omega)]

/-- An offset is a boundary if units are counted up to it on its line. -/
theorem isBoundary_iff : IsBoundary cs offset ↔
    (unitsBefore? (line ++ rest.take 1) (offset - utf8Len above)).isSome = true := by
  have hadd := unitsBefore?_add above (line ++ rest) (offset - utf8Len above)
  rw [Nat.add_sub_cancel' h.start_le, ← h.split] at hadd
  rw [Source.isBoundary_iff, hadd, Option.isSome_map, h.unitsBefore?_eq]

end OnLine

/-- A text is whole lines and a piece of one. -/
theorem exists_whole (cs : List Char) :
    ∃ above piece, cs = above ++ piece ∧ Whole above ∧ '\n' ∉ piece := by
  induction cs using lines_induction with
  | last line hline => exact ⟨[], line, rfl, .inl rfl, hline⟩
  | more line rest hline ih =>
    obtain ⟨above, piece, rfl, hwhole, hpiece⟩ := ih
    exact ⟨line ++ '\n' :: above, piece, by simp, hwhole.line_append line, hpiece⟩

theorem Whole.append_left {below : List Char} (h : Whole below) (hne : below ≠ [])
    (above : List Char) : Whole (above ++ below) := by
  obtain ⟨before, rfl⟩ := h.resolve_left hne
  exact .inr ⟨above ++ before, by simp⟩

theorem Whole.newline_mem {above : List Char} (h : Whole above) (hne : above ≠ []) :
    '\n' ∈ above := by
  obtain ⟨before, rfl⟩ := h.resolve_left hne
  simp

/-- Between two boundaries stands a text. -/
theorem exists_between {cs : List Char} {a b : Nat} (ha : IsBoundary cs a)
    (hb : IsBoundary cs b) (h : a < b) :
    ∃ before between after, cs = before ++ (between ++ after) ∧ between ≠ [] ∧
      utf8Len before = a ∧ utf8Len before + utf8Len between = b := by
  obtain ⟨before, after, rfl, rfl⟩ := ha
  obtain ⟨longer, after', hcs, rfl⟩ := hb
  have hprefix : before <+: longer := by
    refine (List.prefix_or_prefix_of_prefix (List.prefix_append before after)
      (hcs ▸ List.prefix_append longer after')).resolve_right fun hlonger => ?_
    exact Nat.not_le.2 h (String.utf8Len_le_of_prefix hlonger)
  obtain ⟨between, rfl⟩ := hprefix
  refine ⟨before, between, after', by rw [hcs, List.append_assoc], ?_, rfl,
    (String.utf8Len_append _ _).symm⟩
  rintro rfl
  simp at h

/-- The line of an offset goes on behind it, up to a newline or the end. -/
theorem onLine_append {above piece : List Char} (hwhole : Whole above) (hpiece : '\n' ∉ piece)
    (after : List Char) :
    OnLine (above ++ (piece ++ after)) (utf8Len above + utf8Len piece) above
      (piece ++ after.takeWhile (· ≠ '\n')) (after.dropWhile (· ≠ '\n')) where
  split := by rw [List.append_assoc piece, List.takeWhile_append_dropWhile]
  whole := hwhole
  plain := by
    rw [List.mem_append, not_or]
    exact ⟨hpiece, fun hmem => by simpa using List.mem_takeWhile_imp hmem⟩
  start_le := Nat.le_add_right _ _
  stop := by
    -- the line ends with the text or at the next newline
    have hend := List.head?_dropWhile_not (· ≠ '\n') after
    cases hrest : after.dropWhile (· ≠ '\n') with
    | nil => exact .inl rfl
    | cons c below =>
      rw [hrest] at hend
      obtain rfl : c = '\n' := by simpa using hend
      exact .inr ⟨by rw [String.utf8Len_append]; omega, below, rfl⟩

end Source

namespace LineTable

open Source

/-- A lookup finds the line of an offset and counts units from its start. -/
theorem position_onLine {text : String} {offset : Nat} {above line rest : List Char}
    (h : OnLine text.toList offset above line rest) :
    (ofText text).position offset =
      ⟨1 + above.count '\n', (unitsBefore? (line ++ rest.take 1) (offset - utf8Len above)).getD
        (offset - utf8Len above)⟩ := by
  obtain ⟨front, hfront, htake⟩ := h.takeWhile_linesFrom 0
  simp only [Nat.zero_add] at htake
  simp only [position, ofText, htake, List.getLast?_concat, List.length_append, hfront,
    List.length_singleton, Nat.add_comm]

/-- Behind whole lines and a piece of the next one, the column counts the units of the piece. -/
theorem position_append {text : String} {above piece after : List Char}
    (htext : text.toList = above ++ (piece ++ after)) (hwhole : Whole above)
    (hpiece : '\n' ∉ piece) :
    (ofText text).position (utf8Len above + utf8Len piece) =
      ⟨1 + above.count '\n', units piece⟩ := by
  have h := onLine_append hwhole hpiece after
  rw [← htext] at h
  rw [position_onLine h, Nat.add_sub_cancel_left, List.append_assoc, unitsBefore?_of_append]
  rfl

theorem line_position (text : String) (offset : Nat) :
    ((ofText text).position offset).line =
      1 + ((bytes text.toList).take offset).count newline := by
  obtain ⟨above, line, rest, h⟩ := exists_onLine text.toList offset
  rw [position_onLine h, h.count_take]

/-- On a boundary the column counts the units between the start of the line and the offset. -/
theorem column_position_of_isBoundary {text : String} {offset : Nat}
    (h : IsBoundary text.toList offset) :
    ∃ above piece after, text.toList = above ++ (piece ++ after) ∧
      utf8Len above = lineStart (bytes text.toList) offset ∧
      utf8Len above + utf8Len piece = offset ∧
      ((ofText text).position offset).column = units piece := by
  obtain ⟨before, after, htext, rfl⟩ := h
  obtain ⟨above, piece, rfl, hwhole, hpiece⟩ := exists_whole before
  rw [List.append_assoc] at htext
  have honLine := onLine_append hwhole hpiece after
  rw [← htext] at honLine
  rw [String.utf8Len_append]
  exact ⟨above, piece, after, htext, honLine.lineStart_eq.symm, rfl,
    by rw [position_append htext hwhole hpiece]⟩

/-- Elsewhere the column is the distance from the start of the line in bytes. -/
theorem column_position_of_not_isBoundary {text : String} {offset : Nat}
    (h : ¬ IsBoundary text.toList offset) :
    ((ofText text).position offset).column =
      offset - lineStart (bytes text.toList) offset := by
  obtain ⟨above, line, rest, honLine⟩ := exists_onLine text.toList offset
  have hnone : unitsBefore? (line ++ rest.take 1) (offset - utf8Len above) = none := by
    rwa [honLine.isBoundary_iff, Bool.not_eq_true, Option.isSome_eq_false_iff,
      Option.isNone_iff_eq_none] at h
  rw [position_onLine honLine, honLine.lineStart_eq, hnone]
  rfl

end LineTable

open Source

/-- A position comes before another one on its line, or on a line above it. -/
def Position.Before (a b : Position) : Prop :=
  a.line < b.line ∨ a.line = b.line ∧ a.column < b.column

theorem Position.Before.ne {a b : Position} (h : a.Before b) : a ≠ b := by
  rintro rfl
  obtain h | ⟨-, h⟩ := h <;> exact Nat.lt_irrefl _ h

theorem Position.Before.asymm {a b : Position} (h : a.Before b) : ¬ b.Before a := by
  unfold Position.Before at *
  omega

/-- On boundaries, positions follow each other as the offsets do. -/
theorem LineTable.position_before {text : String} {a b : Nat}
    (ha : IsBoundary text.toList a) (hb : IsBoundary text.toList b) (h : a < b) :
    ((ofText text).position a).Before ((ofText text).position b) := by
  obtain ⟨before, between, after, htext, hne, rfl, rfl⟩ := exists_between ha hb h
  obtain ⟨above, piece, rfl, hwhole, hpiece⟩ := exists_whole before
  obtain ⟨below, next, rfl, hbelow, hnext⟩ := exists_whole between
  have hfirst := position_append (by rw [htext, List.append_assoc]) hwhole hpiece
  rw [← String.utf8Len_append] at hfirst
  by_cases hsame : below = []
  · -- on one line the column grows by the units in between
    subst hsame
    have hsplit : text.toList = above ++ (piece ++ next ++ after) := by simpa using htext
    have hsecond := position_append hsplit hwhole (by simp [hpiece, hnext])
    rw [List.nil_append, String.utf8Len_append, Nat.add_assoc, ← String.utf8Len_append piece,
      hsecond, ← String.utf8Len_append, hfirst]
    refine .inr ⟨rfl, ?_⟩
    have hpos : 0 < units next := units_pos (by simpa using hne)
    rw [units_append]
    exact Nat.lt_add_of_pos_right hpos
  · have hsplit : text.toList = above ++ piece ++ below ++ (next ++ after) := by
      simpa using htext
    have hsecond := position_append hsplit (hbelow.append_left hsame (above ++ piece)) hnext
    rw [String.utf8Len_append below, ← Nat.add_assoc, ← String.utf8Len_append _ below, hsecond,
      hfirst]
    -- there is a newline between them
    have hpos : 0 < below.count '\n' := List.count_pos_iff.2 (hbelow.newline_mem hsame)
    left
    simp only [List.count_append]
    omega

end CallFlow
