import Mathlib.Data.List.Basic
import Mathlib.Tactic.SplitIfs

/-!
# Stretches of a list

A stretch of a list can be read (`slice`), as much of it as there is, and written over (`splice`), past
the end too. Appending instead of writing over is the same at the end only (`append_eq_splice_iff`), and
a stretch that is filled up to a length is another stretch only if nothing was filled in
(`filled_eq_slice_iff`).
-/

namespace Splice

variable {α : Type*}

/-- Up to `size` items from `offset` on. -/
def slice (l : List α) (offset size : ℕ) : List α := (l.drop offset).take size

/-- The list with the items at `offset` and on replaced; a gap before them is filled. -/
def splice (fill : α) (l : List α) (offset : ℕ) : List α → List α
  | [] => l
  | items => l.take offset ++ List.replicate (offset - l.length) fill ++ items
    ++ l.drop (offset + items.length)

theorem length_slice (l : List α) (offset size : ℕ) :
    (slice l offset size).length = min size (l.length - offset) := by
  unfold slice
  rw [List.length_take, List.length_drop]

theorem slice_min (l : List α) (offset size : ℕ) :
    slice l offset (min size (l.length - offset)) = slice l offset size := by
  unfold slice
  rw [← List.length_drop, ← List.take_eq_take_min]

theorem splice_of_ne_nil (fill : α) (l : List α) (offset : ℕ) {items : List α} (h : items ≠ []) :
    splice fill l offset items = l.take offset ++ List.replicate (offset - l.length) fill ++ items
      ++ l.drop (offset + items.length) := by
  obtain ⟨a, rest, rfl⟩ := List.exists_cons_of_ne_nil h
  rfl

theorem length_splice (fill : α) (l : List α) (offset : ℕ) {items : List α} (h : items ≠ []) :
    (splice fill l offset items).length = max l.length (offset + items.length) := by
  rw [splice_of_ne_nil fill l offset h]
  simp only [List.length_append, List.length_take, List.length_replicate, List.length_drop]
  omega

theorem append_eq_splice_iff (fill : α) (l : List α) (offset : ℕ) (items : List α) :
    l ++ items = splice fill l offset items ↔ items = [] ∨ offset = l.length := by
  refine ⟨fun h => ?_, fun h => ?_⟩
  · by_contra hneither
    rw [not_or] at hneither
    have hlen := congrArg List.length h
    have hpos := List.length_pos_iff.2 hneither.1
    rw [length_splice fill l offset hneither.1, List.length_append] at hlen
    omega
  · rcases h with rfl | rfl
    · exact List.append_nil l
    · cases items with
      | nil => exact List.append_nil l
      | cons a rest =>
        rw [splice_of_ne_nil fill l _ (List.cons_ne_nil a rest), List.take_length, Nat.sub_self,
          List.replicate_zero, List.append_nil, List.drop_eq_nil_of_le (Nat.le_add_right _ _),
          List.append_nil]

/-- A stretch filled up to a length. -/
theorem filled_eq_slice_iff (l : List α) (offset size : ℕ) (block : List α) :
    slice l offset block.length ++ block.drop (slice l offset block.length).length
        = slice l offset size
      ↔ block.length = min size (l.length - offset) := by
  refine ⟨fun h => ?_, fun h => ?_⟩
  · have hlen := congrArg List.length h
    rw [List.length_append, List.length_drop, length_slice, length_slice] at hlen
    omega
  · have hfull : (slice l offset block.length).length = block.length := by
      rw [length_slice]
      omega
    rw [hfull, List.drop_length, List.append_nil, h, slice_min]

end Splice
