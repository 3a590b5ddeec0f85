import Mathlib.Data.List.Nodup
import Mathlib.Data.Set.Card

/-!
# Lists without repetitions, and arrays put behind each other

What a list is once its repetitions are left out, and where an entry of two arrays comes from.
-/

namespace CallFlow

/-! ## Entries counted once -/

section

variable {α : Type} [BEq α] [LawfulBEq α]

/-- Erasing repetitions leaves none. -/
theorem nodup_eraseDups (as : List α) : as.eraseDups.Nodup := by
  match as with
  | [] => exact .nil
  | a :: as =>
    rw [List.eraseDups_cons]
    refine List.nodup_cons.2 ⟨fun h => ?_, nodup_eraseDups (as.filter fun b => !b == a)⟩
    simpa using List.mem_eraseDups.1 h
termination_by as.length
decreasing_by exact Nat.lt_succ_of_le (List.length_filter_le _ _)

/-- Without repetitions a list is as long as it has different entries. -/
theorem length_eraseDups (as : List α) : as.eraseDups.length = { a | a ∈ as }.ncard := by
  classical
  have hset : { a | a ∈ as } = (as.eraseDups.toFinset : Set α) := by
    ext a
    simp [List.mem_eraseDups]
  rw [hset, Set.ncard_coe_finset, List.toFinset_card_of_nodup (nodup_eraseDups as)]

end

/-! ## Entries of two arrays -/

/-- An entry of two arrays is one of the first, or one of the second behind it. -/
theorem getElem?_append_eq_some_iff {α : Type} {as bs : Array α} {i : ℕ} {a : α} :
    (as ++ bs)[i]? = some a ↔ as[i]? = some a ∨ ∃ j, bs[j]? = some a ∧ as.size + j = i := by
  rw [Array.getElem?_append]
  split
  -- the number is one of the first array, and none of the second has it
  · next hlt =>
    refine ⟨Or.inl, fun h => h.elim id ?_⟩
    rintro ⟨j, -, rfl⟩
    exact absurd hlt (Nat.not_lt.2 (Nat.le_add_right _ _))
  · next hge =>
    constructor
    · exact fun h => Or.inr ⟨i - as.size, h, by omega⟩
    · rintro (h | ⟨j, hj, rfl⟩)
      · exact absurd (Array.getElem?_eq_some_iff.1 h).1 hge
      · rwa [Nat.add_sub_cancel_left]

end CallFlow
