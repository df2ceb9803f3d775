import Mathlib.Tactic.Linarith
import Mathlib.Tactic.SplitIfs

/-!
# Machine integer types

A machine integer type has a width and a sign. What is stored in it is taken modulo the power of two
of the width, to the representative that the type holds (`wrap`), so the integers it holds are stored
as they are (`wrap_of_fits`).
-/

structure IntType where
  signed : Bool
  bits : ℕ
  deriving DecidableEq

namespace IntType

def int16 : IntType := ⟨true, 16⟩
def int32 : IntType := ⟨true, 32⟩
def int64 : IntType := ⟨true, 64⟩
def uint32 : IntType := ⟨false, 32⟩
def uint64 : IntType := ⟨false, 64⟩

variable (t : IntType)

/-- The type holds the integer. -/
def Fits (n : ℤ) : Prop :=
  if t.signed then -2 ^ t.bits ≤ 2 * n ∧ 2 * n < 2 ^ t.bits else 0 ≤ n ∧ n < 2 ^ t.bits

instance (n : ℤ) : Decidable (t.Fits n) :=
  inferInstanceAs (Decidable (if t.signed then _ else _))

/-- What is left of an integer stored in the type. -/
def wrap (n : ℤ) : ℤ := if t.signed then n.bmod (2 ^ t.bits) else n % 2 ^ t.bits

theorem fits_wrap (n : ℤ) : t.Fits (t.wrap n) := by
  have hpos : (0 : ℤ) < 2 ^ t.bits := by positivity
  unfold Fits wrap
  split_ifs
  · have hle := Int.le_bmod (x := n) (m := 2 ^ t.bits) (by positivity)
    have hlt := Int.bmod_lt (x := n) (m := 2 ^ t.bits) (by positivity)
    push_cast at hle hlt
    omega
  · exact ⟨Int.emod_nonneg n hpos.ne', Int.emod_lt_of_pos n hpos⟩

theorem wrap_of_fits {n : ℤ} (h : t.Fits n) : t.wrap n = n := by
  unfold Fits at h
  unfold wrap
  split_ifs at h ⊢
  · exact Int.bmod_eq_of_le_mul_two (by push_cast; omega) (by push_cast; omega)
  · exact Int.emod_eq_of_lt h.1 h.2

theorem fits_zero : t.Fits 0 := by
  have hpos : (0 : ℤ) < 2 ^ t.bits := by positivity
  unfold Fits
  split_ifs <;> omega

theorem fits_int16 {n : ℤ} : int16.Fits n ↔ -2 ^ 15 ≤ n ∧ n < 2 ^ 15 := by
  show (-2 ^ 16 ≤ 2 * n ∧ 2 * n < 2 ^ 16) ↔ _
  omega

theorem fits_int32 {n : ℤ} : int32.Fits n ↔ -2 ^ 31 ≤ n ∧ n < 2 ^ 31 := by
  show (-2 ^ 32 ≤ 2 * n ∧ 2 * n < 2 ^ 32) ↔ _
  omega

theorem fits_int64 {n : ℤ} : int64.Fits n ↔ -2 ^ 63 ≤ n ∧ n < 2 ^ 63 := by
  show (-2 ^ 64 ≤ 2 * n ∧ 2 * n < 2 ^ 64) ↔ _
  omega

theorem fits_uint32 {n : ℤ} : uint32.Fits n ↔ 0 ≤ n ∧ n < 2 ^ 32 := Iff.rfl

theorem fits_uint64 {n : ℤ} : uint64.Fits n ↔ 0 ≤ n ∧ n < 2 ^ 64 := Iff.rfl

end IntType
