import CallFlow.Proofs.Json.Grammar
import Mathlib.Data.List.Basic

/-!
# What is written is read

The text of a value is read as that value, whatever stands behind it (`reads_pretty`): each
character of a string is read from the way it is written, and the commas, line ends and blanks
between values are those of the grammar.
-/

namespace CallFlow.Json

namespace Value

mutual

/-- What the text of a value stands for. -/
def tree : Value → Tree
  | .null => .null
  | .nat n => .number (Nat.toDigits 10 n)
  | .string s => .string s
  | .array items => .array (itemTrees items)
  | .object members => .object (memberTrees members)

/-- The trees of the items. -/
def itemTrees : List Value → List Tree
  | [] => []
  | item :: items => item.tree :: itemTrees items

/-- The trees of the members, under their names. -/
def memberTrees : List (String × Value) → List (String × Tree)
  | [] => []
  | (name, value) :: members => (name, value.tree) :: memberTrees members

end

end Value

/-! ## Numbers -/

theorem toList_toString (n : Nat) : (toString n).toList = Nat.toDigits 10 n := by
  rw [Nat.toString_eq_repr, Nat.repr_eq_ofList_toDigits, String.toList_ofList]

/-- No zero stands in front of the digits of a number. -/
theorem toDigits_of_head? (n : Nat) (h : (Nat.toDigits 10 n).head? = some '0') :
    Nat.toDigits 10 n = ['0'] := by
  induction n using Nat.strongRecOn with
  | ind n ih =>
    rw [Nat.toDigits_eq_if (by decide)] at h ⊢
    split at h
    next hsmall => rw [if_pos hsmall, Option.some.inj h]
    next hlarge =>
      rw [List.head?_append_of_ne_nil _ Nat.toDigits_ne_nil] at h
      -- the digits in front would be those of zero
      have hfront := ih (n / 10) (by omega) h
      have hzero : n / 10 = Nat.ofDigitChars 10 ['0'] 0 := by
        rw [← hfront, Nat.ofDigitChars_toDigits (by decide) (by decide)]
      have hvalue : Nat.ofDigitChars 10 ['0'] 0 = 0 := rfl
      omega

theorem isDigits_toDigits (n : Nat) : IsDigits (Nat.toDigits 10 n) :=
  ⟨Nat.toDigits_ne_nil, fun _ => Nat.isDigit_of_mem_toDigits (by decide) (by decide)⟩

/-- Written without a sign, a point or an exponent it is a number, for it has no zero in front. -/
theorem isNumber_toDigits (n : Nat) : IsNumber (Nat.toDigits 10 n) := by
  have h : IsNumber ([] ++ Nat.toDigits 10 n ++ [] ++ []) :=
    .mk (.inl rfl) ⟨isDigits_toDigits n, toDigits_of_head? n⟩ (.inl rfl) (.inl rfl)
  rwa [List.nil_append, List.append_nil, List.append_nil] at h

/-! ## Strings -/

theorem unit?_control : ∀ n < 0x20,
    unit? '0' '0' (hexDigit (n / 16)) (hexDigit (n % 16)) = some n := by
  decide

/-- Each character is read from the way it is written. -/
theorem readsChar_escape (c : Char) (rest : List Char) : ReadsChar (escape c ++ rest) c rest := by
  have hshort (letter : Char) (h : short? letter = some c) :
      ReadsChar (['\\', letter] ++ rest) c rest :=
    .short h
  unfold escape
  split_ifs with hquote hslash h1 h2 h3 h4 h5 hcontrol
  · exact hshort _ (by rw [hquote]; decide)
  · exact hshort _ (by rw [hslash]; decide)
  · exact hshort _ (by rw [h1]; decide)
  · exact hshort _ (by rw [h2]; decide)
  · exact hshort _ (by rw [h3]; decide)
  · exact hshort _ (by rw [h4]; decide)
  · exact hshort _ (by rw [h5]; decide)
  · have hcode : ReadsChar
        (['\\', 'u', '0', '0', hexDigit (c.toNat / 16), hexDigit (c.toNat % 16)] ++
        rest) (Char.ofNat c.toNat) rest :=
      .code (unit?_control c.toNat hcontrol) (.inl (by omega))
    rwa [Char.ofNat_toNat] at hcode
  -- all other characters stand for themselves
  · exact .plain hquote hslash (by omega)

/-- A string is read character by character up to the quote. -/
theorem readsString_quoted (s : String) (rest : List Char) :
    ReadsString (s.toList.flatMap escape ++ '"' :: rest) s rest := by
  have hchars (cs : List Char) : ReadsChars (cs.flatMap escape ++ '"' :: rest) cs rest := by
    induction cs with
    | nil => exact .close
    | cons c cs ih =>
      rw [List.flatMap_cons, List.append_assoc]
      exact .char (readsChar_escape c _) ih
  have h := ReadsString.mk (hchars s.toList)
  rwa [String.ofList_toList] at h

/-! ## Blanks -/

/-- Line breaks and indentation are blanks. -/
theorem skip_newLine (depth : Nat) (text : List Char) :
    skip (newLine depth ++ text) = skip text := by
  refine List.dropWhile_append_of_pos fun c hc => ?_
  rcases List.mem_cons.1 hc with rfl | hc
  · rfl
  · rw [List.eq_of_mem_replicate hc]
    rfl

/-- Behind a line end a value is read without the blanks in front of it. -/
theorem reads_newLine {text rest : List Char} {tree : Tree} (h : Reads text tree rest)
    (depth : Nat) : Reads (skip (newLine depth ++ text)) tree rest := by
  rw [skip_newLine, h.skip_eq]
  exact h

/-! ## Values -/

/-- A number is read as its digits. -/
theorem reads_toString (n : Nat) {rest : List Char} (hrest : Stops rest) :
    Reads ((toString n).toList ++ rest) (.number (Nat.toDigits 10 n)) rest := by
  have h := isNumber_toDigits n
  obtain ⟨c, digits, heq⟩ := List.exists_cons_of_ne_nil (Nat.toDigits_ne_nil (n := n) (b := 10))
  rw [toList_toString, heq]
  rw [heq] at h
  exact .number h rfl hrest

theorem reads_quoted (s : String) (rest : List Char) :
    Reads (quoted s ++ rest) (.string s) rest := by
  have htext : quoted s ++ rest = '"' :: (s.toList.flatMap escape ++ '"' :: rest) := by
    simp [quoted]
  rw [htext]
  exact .string (readsString_quoted s rest)

/-- A member is read behind the end of a line. -/
theorem readsMember_quoted (depth : Nat) (name : String) {text rest : List Char} {tree : Tree}
    (h : Reads text tree rest) :
    ReadsMember (newLine depth ++ (quoted name ++ ':' :: ' ' :: text)) name tree rest := by
  have hquote : skip (newLine depth ++ (quoted name ++ ':' :: ' ' :: text)) =
      '"' :: (name.toList.flatMap escape ++ '"' :: ':' :: ' ' :: text) := by
    rw [skip_newLine, quoted]
    simp [skip, isBlank]
  have hvalue : Reads (skip (' ' :: text)) tree rest := by
    have hskip : skip (' ' :: text) = skip text := rfl
    rw [hskip, h.skip_eq]
    exact h
  exact .mk hquote (readsString_quoted name _) rfl hvalue

/-- Behind a value stands a comma or the end of a line. -/
theorem stops_items (depth outer : Nat) (items : List Value) (rest : List Char) :
    Stops (Value.prettyItems depth items ++ (newLine outer ++ rest)) := by
  cases items <;> exact fun c hc => Option.some.inj hc ▸ rfl

theorem stops_members (depth outer : Nat) (members : List (String × Value)) (rest : List Char) :
    Stops (Value.prettyMembers depth members ++ (newLine outer ++ rest)) := by
  cases members <;> exact fun c hc => Option.some.inj hc ▸ rfl

mutual

/-- **The text of a value is read as that value.** -/
theorem reads_pretty (depth : Nat) {rest : List Char} (hrest : Stops rest) :
    (v : Value) → Reads (v.pretty depth ++ rest) v.tree rest
  | .null => .null
  | .nat n => reads_toString n hrest
  | .string s => reads_quoted s rest
  | .array [] => .noItems rfl
  | .array (item :: items) => by
    have h := reads_pretty (depth + 1) (stops_items (depth + 1) depth items (']' :: rest)) item
    -- the first item, and then the others behind their commas
    have hitems := readsItems_pretty (depth + 1) depth items (reads_newLine h (depth + 1))
    simpa [Value.pretty, Value.tree, Value.itemTrees] using Reads.array hitems
  | .object [] => .noMembers rfl
  | .object ((name, value) :: members) => by
    have h := reads_pretty (depth + 1)
      (stops_members (depth + 1) depth members ('\x7d' :: rest)) value
    have hmembers := readsMembers_pretty (depth + 1) depth members
      (readsMember_quoted (depth + 1) name h)
    simpa [Value.pretty, Value.tree, Value.memberTrees] using Reads.object hmembers

/-- Once the first item is read, those behind it are. -/
theorem readsItems_pretty (depth outer : Nat) {text rest : List Char} {tree : Tree} :
    (items : List Value) →
      Reads (skip text) tree (Value.prettyItems depth items ++ (newLine outer ++ ']' :: rest)) →
        ReadsItems text (tree :: Value.itemTrees items) rest
  | [], h => .last h (skip_newLine outer (']' :: rest))
  | item :: items, h => by
    have hitem := reads_pretty depth (stops_items depth outer items (']' :: rest)) item
    have hitems := readsItems_pretty depth outer items (reads_newLine hitem depth)
    simp only [Value.prettyItems, List.cons_append, List.append_assoc] at h
    exact .more h rfl hitems

/-- The members behind the first one are read one after the other. -/
theorem readsMembers_pretty (depth outer : Nat) {text rest : List Char} {name : String}
    {tree : Tree} : (members : List (String × Value)) →
      ReadsMember text name tree
        (Value.prettyMembers depth members ++ (newLine outer ++ '\x7d' :: rest)) →
        ReadsMembers text ((name, tree) :: Value.memberTrees members) rest
  | [], h => .last h (skip_newLine outer ('\x7d' :: rest))
  | (name, value) :: members, h => by
    have hvalue := reads_pretty depth (stops_members depth outer members ('\x7d' :: rest)) value
    have hmembers := readsMembers_pretty depth outer members
      (readsMember_quoted depth name hvalue)
    simp only [Value.prettyMembers, List.cons_append, List.nil_append, List.append_assoc] at h
    exact .more h rfl hmembers

end

/-- **The text of a value on its own is that value.** -/
theorem isText_text (v : Value) : IsText v.text.toList v.tree := by
  have hstops : Stops [] := fun c hc => absurd hc (by simp)
  have h := reads_pretty 0 hstops v
  rw [List.append_nil] at h
  rw [Value.text, String.toList_ofList]
  exact ⟨[], h.skip_eq.symm ▸ h, rfl⟩

end CallFlow.Json
