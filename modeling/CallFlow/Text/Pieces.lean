/-!
# Cutting text at a separator

`pieces` cuts a list of characters at every occurrence of a separator; `glue` writes the
pieces back with the separator between them. `glue_pieces` says that nothing is lost.
-/

namespace CallFlow.Text

/-- The maximal runs between occurrences of `sep`: one more run than there are separators. -/
def pieces (sep : Char) : List Char → List (List Char)
  | [] => [[]]
  | c :: rest =>
    if c = sep then [] :: pieces sep rest
    else
      match pieces sep rest with
      | [] => [[c]]
      | piece :: more => (c :: piece) :: more

/-- The pieces in order, with `sep` between neighbours. -/
def glue (sep : Char) : List (List Char) → List Char
  | [] => []
  | [piece] => piece
  | piece :: more => piece ++ sep :: glue sep more

theorem pieces_ne_nil (sep : Char) (text : List Char) : pieces sep text ≠ [] := by
  cases text with
  | nil => simp [pieces]
  | cons c rest =>
    unfold pieces
    split
    · simp
    · split <;> simp

/-- Cutting and gluing gives the text back. -/
theorem glue_pieces (sep : Char) (text : List Char) : glue sep (pieces sep text) = text := by
  induction text with
  | nil => rfl
  | cons c rest ih =>
    unfold pieces
    cases hp : pieces sep rest with
    | nil => exact absurd hp (pieces_ne_nil sep rest)
    | cons piece more =>
      rw [hp] at ih
      by_cases h : c = sep
      · rw [if_pos h, ← ih, h]
        simp [glue]
      · rw [if_neg h]
        cases more with
        | nil => simpa [glue] using ih
        | cons next others => simpa [glue] using ih

end CallFlow.Text
