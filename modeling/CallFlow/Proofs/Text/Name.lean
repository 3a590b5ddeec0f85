import CallFlow.Text.Name
import Mathlib.Data.List.Basic

/-!
# Each name has a spelling of its own

`spell` reads bytes as text where they are, and spells the others. The bytes of a spelling are
those that were spelled (`bytes_spell`), so that nothing a name can be is lost; and a name that is
spelled as `spell` does it is told by its bytes (`IsSpelled.ext`).
-/

namespace CallFlow.Text.Name

/-! ## Spelling bytes -/

/-- The character that bytes start with. -/
def char? (bytes : List UInt8) : Option Char :=
  bytes.toByteArray.utf8DecodeChar? 0

/-- The spelling of so many bytes at most. -/
def spellUpTo : Nat → List UInt8 → List Char
  | 0, _ => []
  | _, [] => []
  | n + 1, byte :: rest =>
    match char? (byte :: rest) with
    | some c => c :: spellUpTo n ((byte :: rest).drop c.utf8Size)
    | none => '\x00' :: Char.ofNat byte.toNat :: spellUpTo n rest

/-- The spelling of bytes. -/
def spell (bytes : List UInt8) : List Char :=
  spellUpTo bytes.length bytes

/-! ## The bytes of a spelling -/

theorem toNat_ofNat_byte (byte : UInt8) : (Char.ofNat byte.toNat).toNat = byte.toNat := by
  have hbyte : byte.toNat < 256 := byte.toNat_lt
  have hvalid : byte.toNat.isValidChar := .inl (by omega)
  rw [Char.ofNat, dif_pos hvalid]
  rfl

theorem units_cons_of_ne {c : Char} (h : c ≠ '\x00') (rest : List Char) :
    units (c :: rest) = .char c :: units rest := by
  cases rest with
  | nil => rfl
  | cons d rest => rw [units, if_neg fun hc => h hc.1]

theorem bytes_cons_of_ne {c : Char} (h : c ≠ '\x00') (rest : List Char) :
    bytes (c :: rest) = String.utf8EncodeChar c ++ bytes rest := by
  rw [bytes, units_cons_of_ne h, List.flatMap_cons]
  rfl

/-- The mark and a character behind it stand for one byte. -/
theorem bytes_stray {byte : UInt8} (h : 0x80 ≤ byte.toNat) (rest : List Char) :
    bytes ('\x00' :: Char.ofNat byte.toNat :: rest) = byte :: bytes rest := by
  have hbyte : byte.toNat < 256 := byte.toNat_lt
  have hnat := toNat_ofNat_byte byte
  have hspells : spellsByte (Char.ofNat byte.toNat) = true := by
    rw [spellsByte, hnat]
    simp only [Bool.and_eq_true, decide_eq_true_eq]
    omega
  rw [bytes, units, if_pos ⟨rfl, hspells⟩, hnat, List.flatMap_cons]
  simp [Unit.bytes, bytes]

/-- A character that is read is written with these bytes. -/
theorem bytes_eq_of_char? {bytes : List UInt8} {c : Char} (h : char? bytes = some c) :
    bytes = String.utf8EncodeChar c ++ bytes.drop c.utf8Size := by
  obtain ⟨rest, hrest⟩ := ByteArray.exists_of_utf8DecodeChar?_eq_some h
  have hlist := congrArg (fun array => array.data.toList) hrest
  simp only [ByteArray.data_append, Array.toList_append, List.toList_data_toByteArray] at hlist
  rw [hlist, List.drop_append_of_le_length (by simp), ← String.length_utf8EncodeChar,
    List.drop_length, List.nil_append]

/-- A byte below those that a spelling can have is a character. -/
theorem char?_ascii {byte : UInt8} (h : byte.toNat < 0x80) (rest : List UInt8) :
    char? (byte :: rest) ≠ none := by
  have hencode : String.utf8EncodeChar (Char.ofNat byte.toNat) = [byte] := by
    have hval : (Char.ofNat byte.toNat).val.toNat = byte.toNat := toNat_ofNat_byte byte
    unfold String.utf8EncodeChar
    simp only [hval]
    rw [if_pos (by omega)]
    simp
  have hbytes : (byte :: rest).toByteArray =
      (String.utf8EncodeChar (Char.ofNat byte.toNat)).toByteArray ++ rest.toByteArray := by
    rw [hencode, ← List.toByteArray_append]
    rfl
  rw [char?, hbytes, ByteArray.utf8DecodeChar?_utf8EncodeChar_append]
  exact Option.some_ne_none _

/-- **The bytes of a spelling are those that were spelled.** -/
theorem bytes_spell {name : List UInt8} (h : 0 ∉ name) : bytes (spell name) = name := by
  -- the bound on the steps is the number of bytes that are left
  have hupto (n : Nat) (name : List UInt8) (hname : 0 ∉ name) (hn : name.length ≤ n) :
      bytes (spellUpTo n name) = name := by
    induction n generalizing name with
    | zero => rw [List.eq_nil_of_length_eq_zero (Nat.le_zero.1 hn)]; rfl
    | succ n ih =>
      cases name with
      | nil => rfl
      | cons byte rest =>
        rw [spellUpTo]
        split
        -- a character is read as a whole, and it is no mark since no byte is zero
        next c hchar =>
          have hsplit := bytes_eq_of_char? hchar
          have hne : c ≠ '\x00' := by
            rintro rfl
            exact hname (hsplit ▸ List.mem_append_left _ (by decide))
          have hdrop := ih ((byte :: rest).drop c.utf8Size)
            (fun hmem => hname (List.mem_of_mem_drop hmem)) (by
              have hpos := c.utf8Size_pos
              simp only [List.length_drop, List.length_cons] at hn ⊢
              omega)
          rw [bytes_cons_of_ne hne, hdrop, ← hsplit]
        next hchar =>
          -- a byte that starts no character is not an ASCII one
          have hbyte : 0x80 ≤ byte.toNat := by
            by_contra hlow
            exact char?_ascii (by omega) rest hchar
          rw [bytes_stray hbyte, ih rest (fun hmem => hname (List.mem_cons_of_mem _ hmem))
            (Nat.le_of_succ_le_succ hn)]
  exact hupto name.length name h (Nat.le_refl _)

/-! ## Names that are spelled -/

/-- A name is spelled as its bytes are. -/
def IsSpelled (name : List Char) : Prop := spell (bytes name) = name

instance (name : List Char) : Decidable (IsSpelled name) :=
  inferInstanceAs (Decidable (spell (bytes name) = name))

/-- What bytes are spelled by is spelled as its bytes are. -/
theorem isSpelled_spell {name : List UInt8} (h : 0 ∉ name) : IsSpelled (spell name) :=
  congrArg spell (bytes_spell h)

theorem IsSpelled.ext {a b : List Char} (ha : IsSpelled a) (hb : IsSpelled b)
    (h : bytes a = bytes b) : a = b := by
  rw [← ha, h, hb]

example : IsSpelled ['.', 'é', '\x00', 'ÿ', 'j', 's'] := by decide +kernel
example : isText ['.', 'é', '\x00', 'ÿ', 'j', 's'] = false := by decide
example : shown ['.', 'é', '\x00', '\xe2', '\x00', '\x82', 'j', 's'] =
    ".é\ufffdjs".toList := by decide

end CallFlow.Text.Name
