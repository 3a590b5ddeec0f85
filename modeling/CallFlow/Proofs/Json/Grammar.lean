import CallFlow.Json.Value
import Mathlib.Data.List.TakeWhile

/-!
# The grammar of JSON

What a JSON text stands for, rule by rule: `Reads text tree rest` says that the text starts with the
value `tree` and goes on with `rest`. Blanks may stand around values and marks.

* What a text reads does not depend on what is put behind it (`Reads.append`), unless a number at
  its end would go on. So a text that is a value on its own (`IsText`) is read as this value in a
  longer text as well (`IsText.reads`).
* No text has two readings (`IsText.unique`), as the first character of a value tells its form.
-/

namespace CallFlow.Json

/-- What a JSON text stands for. A number is kept as it is written. -/
inductive Tree
  | null
  | bool (b : Bool)
  | number (text : List Char)
  | string (s : String)
  | array (items : List Tree)
  | object (members : List (String × Tree))
deriving Repr, Inhabited

/-! ## Blanks -/

/-- The characters that may stand between the parts of a value. -/
def isBlank (c : Char) : Bool :=
  c = ' ' || c = '\t' || c = '\n' || c = '\r'

/-- The text behind the blanks that it starts with. -/
def skip (text : List Char) : List Char := text.dropWhile isBlank

/-! ## Numbers -/

/-- One digit at least, and nothing else. -/
def IsDigits (text : List Char) : Prop :=
  text ≠ [] ∧ ∀ c ∈ text, c.isDigit = true

/-- The digits of a whole number: a zero stands at the start only if it stands alone. -/
def IsWhole (text : List Char) : Prop :=
  IsDigits text ∧ (text.head? = some '0' → text = ['0'])

/-- A decimal number: a whole number with a sign, decimal places and an exponent, if there are
any. -/
inductive IsNumber : List Char → Prop
  | mk {sign whole places exponent : List Char} (hsign : sign = [] ∨ sign = ['-'])
      (hwhole : IsWhole whole) (hplaces : places = [] ∨ ∃ ds, IsDigits ds ∧ places = '.' :: ds)
      (hexponent : exponent = [] ∨ ∃ e s ds, (e = 'e' ∨ e = 'E') ∧
        (s = [] ∨ s = ['+'] ∨ s = ['-']) ∧ IsDigits ds ∧ exponent = e :: s ++ ds) :
      IsNumber (sign ++ whole ++ places ++ exponent)

/-- A character that a number may go on with. -/
def isNumberChar (c : Char) : Bool :=
  c.isDigit || c = '-' || c = '+' || c = '.' || c = 'e' || c = 'E'

/-- No number goes on with this text. -/
def Stops (rest : List Char) : Prop :=
  ∀ c, rest.head? = some c → isNumberChar c = false

/-! ## Strings -/

/-- What a hexadecimal digit stands for. -/
def hexValue? (c : Char) : Option Nat :=
  if '0' ≤ c ∧ c ≤ '9' then some (c.toNat - 48)
  else if 'a' ≤ c ∧ c ≤ 'f' then some (c.toNat - 87)
  else if 'A' ≤ c ∧ c ≤ 'F' then some (c.toNat - 55)
  else none

/-- The number that four hexadecimal digits write. -/
def unit? (a b c d : Char) : Option Nat := do
  return 4096 * (← hexValue? a) + 256 * (← hexValue? b) + 16 * (← hexValue? c) + (← hexValue? d)

/-- The character that a letter behind a `\` stands for. -/
def short? (c : Char) : Option Char :=
  if c = '"' ∨ c = '\\' ∨ c = '/' then some c
  else if c = 'b' then some '\x08'
  else if c = 'f' then some '\x0c'
  else if c = 'n' then some '\n'
  else if c = 'r' then some '\r'
  else if c = 't' then some '\t'
  else none

/-- How one character of a string is written: as it is, by a letter, by its code, or by the codes of
two surrogates. A surrogate alone stands for no character. -/
inductive ReadsChar : List Char → Char → List Char → Prop
  | plain {c : Char} {rest : List Char} (hquote : c ≠ '"') (hslash : c ≠ '\\')
      (hcontrol : 0x20 ≤ c.toNat) : ReadsChar (c :: rest) c rest
  | short {letter c : Char} {rest : List Char} (h : short? letter = some c) :
      ReadsChar ('\\' :: letter :: rest) c rest
  | code {a b c d : Char} {n : Nat} {rest : List Char} (h : unit? a b c d = some n)
      (hn : n < 0xd800 ∨ 0xdfff < n) :
      ReadsChar ('\\' :: 'u' :: a :: b :: c :: d :: rest) (Char.ofNat n) rest
  | surrogates {a b c d a' b' c' d' : Char} {high low : Nat} {rest : List Char}
      (hhigh : unit? a b c d = some high) (hlow : unit? a' b' c' d' = some low)
      (h : 0xd800 ≤ high ∧ high < 0xdc00 ∧ 0xdc00 ≤ low ∧ low ≤ 0xdfff) :
      ReadsChar ('\\' :: 'u' :: a :: b :: c :: d :: '\\' :: 'u' :: a' :: b' :: c' :: d' :: rest)
        (Char.ofNat (0x10000 + 0x400 * (high - 0xd800) + (low - 0xdc00))) rest

/-- The characters of a string up to the quote at its end. -/
inductive ReadsChars : List Char → List Char → List Char → Prop
  | close {rest : List Char} : ReadsChars ('"' :: rest) [] rest
  | char {c : Char} {text next rest s : List Char} (h : ReadsChar text c next)
      (hs : ReadsChars next s rest) : ReadsChars text (c :: s) rest

/-- A text starts with what is written in a string, and a quote behind it. -/
inductive ReadsString : List Char → String → List Char → Prop
  | mk {text rest s : List Char} (h : ReadsChars text s rest) :
      ReadsString text (String.ofList s) rest

/-! ## Values -/

mutual

/-- A text starts with a value. -/
inductive Reads : List Char → Tree → List Char → Prop
  | null {rest : List Char} : Reads ('n' :: 'u' :: 'l' :: 'l' :: rest) .null rest
  | isTrue {rest : List Char} : Reads ('t' :: 'r' :: 'u' :: 'e' :: rest) (.bool true) rest
  | isFalse {rest : List Char} : Reads ('f' :: 'a' :: 'l' :: 's' :: 'e' :: rest) (.bool false) rest
  | number {c : Char} {text digits rest : List Char} (h : IsNumber (c :: digits))
      (htext : text = digits ++ rest) (hrest : Stops rest) :
      Reads (c :: text) (.number (c :: digits)) rest
  | string {text rest : List Char} {s : String} (h : ReadsString text s rest) :
      Reads ('"' :: text) (.string s) rest
  | noItems {text rest : List Char} (h : skip text = ']' :: rest) :
      Reads ('[' :: text) (.array []) rest
  | array {text rest : List Char} {items : List Tree} (h : ReadsItems text items rest) :
      Reads ('[' :: text) (.array items) rest
  | noMembers {text rest : List Char} (h : skip text = '\x7d' :: rest) :
      Reads ('\x7b' :: text) (.object []) rest
  | object {text rest : List Char} {members : List (String × Tree)}
      (h : ReadsMembers text members rest) : Reads ('\x7b' :: text) (.object members) rest

/-- A text starts with values with commas between them, up to the end of an array. -/
inductive ReadsItems : List Char → List Tree → List Char → Prop
  | last {text next rest : List Char} {item : Tree} (h : Reads (skip text) item next)
      (hend : skip next = ']' :: rest) : ReadsItems text [item] rest
  | more {text next others rest : List Char} {item : Tree} {items : List Tree}
      (h : Reads (skip text) item next) (hcomma : skip next = ',' :: others)
      (hitems : ReadsItems others items rest) : ReadsItems text (item :: items) rest

/-- A text starts with members with commas between them, up to the end of an object. -/
inductive ReadsMembers : List Char → List (String × Tree) → List Char → Prop
  | last {text next rest : List Char} {name : String} {value : Tree}
      (h : ReadsMember text name value next) (hend : skip next = '\x7d' :: rest) :
      ReadsMembers text [(name, value)] rest
  | more {text next others rest : List Char} {name : String} {value : Tree}
      {members : List (String × Tree)} (h : ReadsMember text name value next)
      (hcomma : skip next = ',' :: others) (hmembers : ReadsMembers others members rest) :
      ReadsMembers text ((name, value) :: members) rest

/-- A text starts with a name, a colon and a value. -/
inductive ReadsMember : List Char → String → Tree → List Char → Prop
  | mk {text quoted afterName afterColon rest : List Char} {name : String} {value : Tree}
      (hquote : skip text = '"' :: quoted) (hname : ReadsString quoted name afterName)
      (hcolon : skip afterName = ':' :: afterColon) (hvalue : Reads (skip afterColon) value rest) :
      ReadsMember text name value rest

end

/-- A text is a JSON value, with nothing but blanks around it. -/
def IsText (text : List Char) (tree : Tree) : Prop :=
  ∃ rest, Reads (skip text) tree rest ∧ skip rest = []

/-! ## More text behind a value -/

/-- A number starts with a sign or a digit. -/
theorem IsNumber.head {c : Char} {digits : List Char} (h : IsNumber (c :: digits)) :
    c = '-' ∨ c.isDigit = true := by
  generalize htext : c :: digits = text at h
  obtain ⟨hsign, hwhole, -, -⟩ := h
  obtain ⟨d, more, rfl⟩ := List.exists_cons_of_ne_nil hwhole.1.1
  rcases hsign with rfl | rfl
  · exact .inr ((List.cons.inj htext).1 ▸ hwhole.1.2 d List.mem_cons_self)
  · exact .inl (List.cons.inj htext).1

/-- No blank stands at the start of a value. -/
theorem Reads.skip_eq {text rest : List Char} {tree : Tree} (h : Reads text tree rest) :
    skip text = text := by
  cases h with
  | @number c text _ _ h =>
    have hc : isBlank c = false := by
      by_contra hblank
      simp only [isBlank, Bool.not_eq_false, Bool.or_eq_true, decide_eq_true_eq] at hblank
      have hhead := h.head
      obtain ((rfl | rfl) | rfl) | rfl := hblank <;> revert hhead <;> decide
    rw [skip, List.dropWhile_cons_of_neg (by simp [hc])]
  | _ => rfl

/-- Blanks are skipped in the same way with more text behind. -/
theorem skip_append {text next : List Char} {c : Char} (more : List Char)
    (h : skip text = c :: next) : skip (text ++ more) = c :: (next ++ more) := by
  have hne : (text.dropWhile isBlank).isEmpty = false := by
    rw [← skip, h]
    rfl
  rw [skip, List.dropWhile_append, if_neg (by simp [hne]), ← skip, h]
  rfl

/-- Behind blanks a text goes on as if they were not there. -/
theorem skip_append_of_blank {text : List Char} (more : List Char) (h : skip text = []) :
    skip (text ++ more) = skip more := by
  have hempty : (text.dropWhile isBlank).isEmpty = true := by
    rw [← skip, h]
    rfl
  rw [skip, List.dropWhile_append, if_pos hempty]
  rfl

/-- What stands behind a value does not reach the blanks in front of it. -/
theorem Reads.skip_append {text rest : List Char} {tree : Tree} (h : Reads (skip text) tree rest)
    (more : List Char) : skip (text ++ more) = skip text ++ more := by
  obtain ⟨c, next, hnext⟩ : ∃ c next, skip text = c :: next := by
    generalize skip text = start at h
    cases h <;> exact ⟨_, _, rfl⟩
  rw [Json.skip_append more hnext, hnext, List.cons_append]

theorem Stops.append {rest more : List Char} (hrest : Stops rest) (hmore : Stops more) :
    Stops (rest ++ more) := by
  cases rest with
  | nil => exact hmore
  | cons => exact hrest

/-- A character is read in the same way with more text behind, since its end is marked. -/
theorem ReadsChar.append {text rest : List Char} {c : Char} (h : ReadsChar text c rest)
    (more : List Char) : ReadsChar (text ++ more) c (rest ++ more) := by
  cases h with
  | plain hquote hslash hcontrol => exact .plain hquote hslash hcontrol
  | short h => exact .short h
  | code h hn => exact .code h hn
  | surrogates hhigh hlow h => exact .surrogates hhigh hlow h

/-- And so is a string. -/
theorem ReadsString.append {text rest : List Char} {s : String} (h : ReadsString text s rest)
    (more : List Char) : ReadsString (text ++ more) s (rest ++ more) := by
  obtain ⟨h⟩ := h
  refine .mk ?_
  induction h with
  | close => exact .close
  | char h _ ih => exact .char (h.append more) ih

mutual

/-- **What a text reads stays when more is put behind it.** The induction is on the reading; only a
number asks for the first character of what comes. -/
theorem Reads.append {text rest more : List Char} {tree : Tree} (hmore : Stops more) :
    Reads text tree rest → Reads (text ++ more) tree (rest ++ more)
  | .null => .null
  | .isTrue => .isTrue
  | .isFalse => .isFalse
  | .number h htext hrest =>
    .number h (htext ▸ List.append_assoc ..) (hrest.append hmore)
  | .string h => .string (h.append more)
  | .noItems h => .noItems (skip_append more h)
  | .array h => .array (h.append hmore)
  | .noMembers h => .noMembers (skip_append more h)
  | .object h => .object (h.append hmore)
termination_by structural h => h

theorem ReadsItems.append {text rest more : List Char} {items : List Tree} (hmore : Stops more) :
    ReadsItems text items rest → ReadsItems (text ++ more) items (rest ++ more)
  | .last h hend => .last (h.skip_append more ▸ h.append hmore) (skip_append more hend)
  | .more h hcomma hitems =>
    .more (h.skip_append more ▸ h.append hmore) (skip_append more hcomma) (hitems.append hmore)
termination_by structural h => h

theorem ReadsMembers.append {text rest more : List Char} {members : List (String × Tree)}
    (hmore : Stops more) :
    ReadsMembers text members rest → ReadsMembers (text ++ more) members (rest ++ more)
  | .last h hend => .last (h.append hmore) (skip_append more hend)
  | .more h hcomma hmembers =>
    .more (h.append hmore) (skip_append more hcomma) (hmembers.append hmore)
termination_by structural h => h

theorem ReadsMember.append {text rest more : List Char} {name : String} {value : Tree}
    (hmore : Stops more) :
    ReadsMember text name value rest → ReadsMember (text ++ more) name value (rest ++ more)
  | .mk hquote hname hcolon hvalue =>
    .mk (skip_append more hquote) (hname.append more) (skip_append more hcolon)
      (hvalue.skip_append more ▸ hvalue.append hmore)
termination_by structural h => h

end

/-- A text that is a value on its own is read as this value in a longer text, up to blanks. -/
theorem IsText.reads {text more : List Char} {tree : Tree} (h : IsText text tree)
    (hmore : Stops more) :
    ∃ rest, Reads (skip (text ++ more)) tree rest ∧ skip rest = skip more := by
  obtain ⟨blanks, h, hblanks⟩ := h
  exact ⟨blanks ++ more, h.skip_append more ▸ h.append hmore, skip_append_of_blank more hblanks⟩

/-! ## No text has two readings -/

theorem IsDigits.isNumberChar {text : List Char} (h : IsDigits text) :
    ∀ c ∈ text, isNumberChar c = true := fun c hc => by
  simp [Json.isNumberChar, h.2 c hc]

/-- A number has no other characters, so that it ends where one of another kind stands. -/
theorem IsNumber.isNumberChar {text : List Char} (h : IsNumber text) :
    ∀ c ∈ text, isNumberChar c = true := by
  obtain ⟨hsign, hwhole, hplaces, hexponent⟩ := h
  simp only [List.forall_mem_append]
  refine ⟨⟨⟨?_, hwhole.1.isNumberChar⟩, ?_⟩, ?_⟩
  -- the sign and the digits before the point, then those behind it and the exponent
  · rcases hsign with rfl | rfl
    · simp
    · simp [Json.isNumberChar]
  · obtain rfl | ⟨ds, hds, rfl⟩ := hplaces
    · simp
    · exact List.forall_mem_cons.2 ⟨rfl, hds.isNumberChar⟩
  · obtain rfl | ⟨e, s, ds, he, hs, hds, rfl⟩ := hexponent
    · simp
    · refine List.forall_mem_append.2 ⟨List.forall_mem_cons.2 ⟨?_, ?_⟩, hds.isNumberChar⟩
      · rcases he with rfl | rfl <;> rfl
      · rcases hs with rfl | rfl | rfl <;> simp [Json.isNumberChar]

/-- The number at the start of a text goes as far as its characters do. -/
theorem takeWhile_isNumberChar {digits rest : List Char} (h : ∀ c ∈ digits, isNumberChar c = true)
    (hrest : Stops rest) : (digits ++ rest).takeWhile isNumberChar = digits := by
  rw [List.takeWhile_append_of_pos h]
  cases rest with
  | nil => exact List.append_nil digits
  | cons c rest => simp [hrest c rfl]

/-- A character is read in one way only. The rules differ in what comes first, apart from the two
with a code, which differ in the code. -/
theorem ReadsChar.unique {text rest rest' : List Char} {c c' : Char} (h : ReadsChar text c rest)
    (h' : ReadsChar text c' rest') : c = c' ∧ rest = rest' := by
  -- no short escape is written with a `u`
  have hu (c : Char) : short? 'u' ≠ some c := by
    have hnone : short? 'u' = none := by decide
    simp [hnone]
  cases h with
  | plain hquote hslash hcontrol =>
    cases h' with
    | plain => exact ⟨rfl, rfl⟩
    | short => exact absurd rfl hslash
    | code => exact absurd rfl hslash
    | surrogates => exact absurd rfl hslash
  | short h =>
    cases h' with
    | plain hquote hslash hcontrol => exact absurd rfl hslash
    | short h' => exact ⟨Option.some.inj (h.symm.trans h'), rfl⟩
    | code => exact absurd h (hu c)
    | surrogates => exact absurd h (hu c)
  | code h hn =>
    cases h' with
    | plain hquote hslash hcontrol => exact absurd rfl hslash
    | short h' => exact absurd h' (hu c')
    | code h' hn' =>
      rw [Option.some.inj (h.symm.trans h')]
      exact ⟨rfl, rfl⟩
    | surrogates hhigh hlow hpair =>
      have heq := Option.some.inj (h.symm.trans hhigh)
      omega
  | surrogates hhigh hlow hpair =>
    cases h' with
    | plain hquote hslash hcontrol => exact absurd rfl hslash
    | short h' => exact absurd h' (hu c')
    | code h hn =>
      have heq := Option.some.inj (h.symm.trans hhigh)
      omega
    | surrogates hhigh' hlow' hpair' =>
      rw [Option.some.inj (hhigh.symm.trans hhigh'), Option.some.inj (hlow.symm.trans hlow')]
      exact ⟨rfl, rfl⟩

/-- A string ends at the first quote that stands for itself. -/
theorem ReadsChars.unique {text rest rest' s s' : List Char} (h : ReadsChars text s rest)
    (h' : ReadsChars text s' rest') : s = s' ∧ rest = rest' := by
  -- a quote is not read as a character
  have hclose {c : Char} {more next : List Char} : ¬ReadsChar ('"' :: more) c next := by
    intro h
    cases h with
    | plain hquote => exact hquote rfl
  induction h generalizing s' with
  | close =>
    cases h' with
    | close => exact ⟨rfl, rfl⟩
    | char h' => exact absurd h' hclose
  | char h hs ih =>
    cases h' with
    | close => exact absurd h hclose
    | char h' hs' =>
      obtain ⟨rfl, rfl⟩ := h.unique h'
      exact (ih hs').imp_left (congrArg _)

theorem ReadsString.unique {text rest rest' : List Char} {s s' : String}
    (h : ReadsString text s rest) (h' : ReadsString text s' rest') : s = s' ∧ rest = rest' := by
  obtain ⟨h⟩ := h
  obtain ⟨h'⟩ := h'
  exact (h.unique h').imp_left (congrArg _)

/-- A text that starts with a sign or a digit is a number, up to where its characters end. -/
theorem Reads.eq_number {c : Char} {text rest : List Char} {tree : Tree}
    (h : Reads (c :: text) tree rest) (hc : c = '-' ∨ c.isDigit = true) :
    tree = .number ((c :: text).takeWhile isNumberChar) ∧
      (c :: text).takeWhile isNumberChar ++ rest = c :: text := by
  cases h with
  | @number _ _ digits _ h htext hrest =>
    subst htext
    rw [← List.cons_append, takeWhile_isNumberChar h.isNumberChar hrest]
    exact ⟨rfl, rfl⟩
  | _ => exact absurd hc (by decide)

/-- A value starts with no mark that ends something. -/
theorem Reads.head_ne {c : Char} {text rest : List Char} {tree : Tree}
    (h : Reads (c :: text) tree rest) : c ≠ ']' ∧ c ≠ '\x7d' := by
  cases h with
  | number h =>
    refine ⟨?_, ?_⟩
    · rintro rfl
      exact absurd h.head (by decide)
    · rintro rfl
      exact absurd h.head (by decide)
  | _ => decide

/-- A list of items does not start with its end. -/
theorem ReadsItems.ne_end {text rest more : List Char} {items : List Tree}
    (h : ReadsItems text items rest) : skip text ≠ ']' :: more := by
  intro hend
  cases h with
  | last h =>
    rw [hend] at h
    exact h.head_ne.1 rfl
  | more h =>
    rw [hend] at h
    exact h.head_ne.1 rfl

/-- Nor does a list of members. -/
theorem ReadsMembers.ne_end {text rest more : List Char} {members : List (String × Tree)}
    (h : ReadsMembers text members rest) : skip text ≠ '\x7d' :: more := by
  intro hend
  cases h with
  | last h =>
    cases h with
    | mk hquote => simp [hend] at hquote
  | more h =>
    cases h with
    | mk hquote => simp [hend] at hquote

/-- What starts with a bracket is an array, with or without items. -/
theorem Reads.of_bracket {text rest : List Char} {tree : Tree} (h : Reads ('[' :: text) tree rest) :
    (tree = .array [] ∧ skip text = ']' :: rest) ∨
      ∃ items, tree = .array items ∧ ReadsItems text items rest := by
  cases h with
  | number h => exact absurd h.head (by decide)
  | noItems h => exact .inl ⟨rfl, h⟩
  | array h => exact .inr ⟨_, rfl, h⟩

/-- What starts with a brace is an object, with or without members. -/
theorem Reads.of_brace {text rest : List Char} {tree : Tree}
    (h : Reads ('\x7b' :: text) tree rest) :
    (tree = .object [] ∧ skip text = '\x7d' :: rest) ∨
      ∃ members, tree = .object members ∧ ReadsMembers text members rest := by
  cases h with
  | number h => exact absurd h.head (by decide)
  | noMembers h => exact .inl ⟨rfl, h⟩
  | object h => exact .inr ⟨_, rfl, h⟩

mutual

/-- A text starts with one value at most. -/
theorem Reads.unique {text rest rest' : List Char} {tree tree' : Tree} :
    Reads text tree rest → Reads text tree' rest' → tree = tree' ∧ rest = rest'
  | .null, h' => by
    cases h' with
    | null => exact ⟨rfl, rfl⟩
    | number h' => exact absurd h'.head (by decide)
  | .isTrue, h' => by
    cases h' with
    | isTrue => exact ⟨rfl, rfl⟩
    | number h' => exact absurd h'.head (by decide)
  | .isFalse, h' => by
    cases h' with
    | isFalse => exact ⟨rfl, rfl⟩
    | number h' => exact absurd h'.head (by decide)
  | .number h htext hrest, h' => by
    -- both are what the characters of a number at the start of the text are
    obtain ⟨htree, happend⟩ := (Reads.number h htext hrest).eq_number h.head
    obtain ⟨htree', happend'⟩ := h'.eq_number h.head
    exact ⟨htree.trans htree'.symm, List.append_cancel_left (happend.trans happend'.symm)⟩
  | .string h, h' => by
    cases h' with
    | string h' => exact (h.unique h').imp_left (congrArg _)
    | number h' => exact absurd h'.head (by decide)
  | .noItems h, h' => by
    obtain ⟨rfl, hend⟩ | ⟨items, rfl, hitems⟩ := h'.of_bracket
    · exact ⟨rfl, (List.cons.inj (h.symm.trans hend)).2⟩
    · exact absurd h hitems.ne_end
  | .array h, h' => by
    obtain ⟨rfl, hend⟩ | ⟨items, rfl, hitems⟩ := h'.of_bracket
    · exact absurd hend h.ne_end
    · exact (h.unique hitems).imp_left (congrArg _)
  | .noMembers h, h' => by
    obtain ⟨rfl, hend⟩ | ⟨members, rfl, hmembers⟩ := h'.of_brace
    · exact ⟨rfl, (List.cons.inj (h.symm.trans hend)).2⟩
    · exact absurd h hmembers.ne_end
  | .object h, h' => by
    obtain ⟨rfl, hend⟩ | ⟨members, rfl, hmembers⟩ := h'.of_brace
    · exact absurd hend h.ne_end
    · exact (h.unique hmembers).imp_left (congrArg _)
termination_by structural h => h

/-- Items are read in one way only: a comma goes on and a bracket ends. -/
theorem ReadsItems.unique {text rest rest' : List Char} {items items' : List Tree} :
    ReadsItems text items rest → ReadsItems text items' rest' → items = items' ∧ rest = rest'
  | .last h hend, .last h' hend' => by
    obtain ⟨rfl, rfl⟩ := h.unique h'
    exact ⟨rfl, (List.cons.inj (hend.symm.trans hend')).2⟩
  | .last h hend, .more h' hcomma' _ => by
    obtain ⟨rfl, rfl⟩ := h.unique h'
    exact absurd (hend.symm.trans hcomma') (by simp)
  | .more h hcomma _, .last h' hend' => by
    obtain ⟨rfl, rfl⟩ := h.unique h'
    exact absurd (hcomma.symm.trans hend') (by simp)
  | .more h hcomma hitems, .more h' hcomma' hitems' => by
    obtain ⟨rfl, rfl⟩ := h.unique h'
    obtain rfl := (List.cons.inj (hcomma.symm.trans hcomma')).2
    exact (hitems.unique hitems').imp_left (congrArg _)
termination_by structural h => h

/-- Members are read in one way only. -/
theorem ReadsMembers.unique {text rest rest' : List Char}
    {members members' : List (String × Tree)} :
    ReadsMembers text members rest → ReadsMembers text members' rest' →
      members = members' ∧ rest = rest'
  | .last h hend, .last h' hend' => by
    obtain ⟨rfl, rfl, rfl⟩ := h.unique h'
    exact ⟨rfl, (List.cons.inj (hend.symm.trans hend')).2⟩
  | .last h hend, .more h' hcomma' _ => by
    obtain ⟨rfl, rfl, rfl⟩ := h.unique h'
    exact absurd (hend.symm.trans hcomma') (by simp)
  | .more h hcomma _, .last h' hend' => by
    obtain ⟨rfl, rfl, rfl⟩ := h.unique h'
    exact absurd (hcomma.symm.trans hend') (by simp)
  | .more h hcomma hmembers, .more h' hcomma' hmembers' => by
    obtain ⟨rfl, rfl, rfl⟩ := h.unique h'
    obtain rfl := (List.cons.inj (hcomma.symm.trans hcomma')).2
    exact (hmembers.unique hmembers').imp_left (congrArg _)
termination_by structural h => h

/-- A member has one name and one value. -/
theorem ReadsMember.unique {text rest rest' : List Char} {name name' : String}
    {value value' : Tree} :
    ReadsMember text name value rest → ReadsMember text name' value' rest' →
      name = name' ∧ value = value' ∧ rest = rest'
  | .mk hquote hname hcolon hvalue, .mk hquote' hname' hcolon' hvalue' => by
    obtain rfl := (List.cons.inj (hquote.symm.trans hquote')).2
    obtain ⟨rfl, rfl⟩ := hname.unique hname'
    obtain rfl := (List.cons.inj (hcolon.symm.trans hcolon')).2
    exact ⟨rfl, hvalue.unique hvalue'⟩
termination_by structural h => h

end

/-- **A text is one JSON value at most.** -/
theorem IsText.unique {text : List Char} {tree tree' : Tree} (h : IsText text tree)
    (h' : IsText text tree') : tree = tree' := by
  obtain ⟨rest, h, -⟩ := h
  obtain ⟨rest', h', -⟩ := h'
  exact (h.unique h').1

end CallFlow.Json
