import Mathlib.Data.Nat.Log
import Mathlib.Tactic.NormNum

/-!
# The double nearest to an integer

An IEEE double has a significand of 53 bits. An integer that needs more is rounded to the nearest
multiple of the power of two its size leaves, the tie going to the even one.
-/

namespace Double

/-- The double nearest to `n`, ties to even. -/
def roundNat (n : ℕ) : ℕ :=
  -- `k` low bits do not fit the significand
  let k := Nat.log2 n - 52
  let q := n / 2 ^ k
  let r := n % 2 ^ k
  (if 2 ^ k < 2 * r ∨ 2 * r = 2 ^ k ∧ q % 2 = 1 then q + 1 else q) * 2 ^ k

def round : ℤ → ℤ
  | .ofNat n => roundNat n
  | .negSucc n => -(roundNat (n + 1) : ℤ)

theorem roundNat_of_lt {n : ℕ} (h : n < 2 ^ 53) : roundNat n = n := by
  have hk : Nat.log2 n - 52 = 0 := by
    rcases Nat.eq_zero_or_pos n with rfl | hn
    · simp
    · have : Nat.log2 n < 53 := (Nat.log2_lt hn.ne').2 h
      omega
  simp [roundNat, hk, Nat.mod_one]

theorem roundNat_of_le {n : ℕ} (h : n ≤ 2 ^ 53) : roundNat n = n := by
  rcases h.lt_or_eq with h | rfl
  · exact roundNat_of_lt h
  · decide

/-- Every integer up to `2 ^ 53` is a double. -/
theorem round_of_le : ∀ {n : ℤ}, n.natAbs ≤ 2 ^ 53 → round n = n
  | .ofNat n, h => by
    simp only [round, roundNat_of_le (n := n) h]
    rfl
  | .negSucc n, h => by
    have h' : n + 1 ≤ 2 ^ 53 := h
    simp only [round, roundNat_of_le h']
    rfl

example : round (2 ^ 53 + 1) = 2 ^ 53 := by decide

/-- Rounding leads to no smaller double past an integer that is a double. -/
theorem le_roundNat {n : ℕ} (h : 2 ^ 53 ≤ n) : 2 ^ 53 ≤ roundNat n := by
  have hn : n ≠ 0 := by omega
  have hlog : 53 ≤ Nat.log2 n := (Nat.le_log2 hn).2 h
  have hself : 2 ^ Nat.log2 n ≤ n := Nat.log2_self_le hn
  obtain ⟨k, hk⟩ : ∃ k, Nat.log2 n = k + 53 := ⟨Nat.log2 n - 53, by omega⟩
  have hsub : Nat.log2 n - 52 = k + 1 := by omega
  have hq : 2 ^ 52 ≤ n / 2 ^ (k + 1) := by
    rw [Nat.le_div_iff_mul_le (by positivity), ← pow_add]
    rw [hk] at hself
    exact (Nat.pow_le_pow_right (by decide) (by omega)).trans hself
  have hpow : 2 ^ 1 ≤ 2 ^ (k + 1) := Nat.pow_le_pow_right (by decide) (by omega)
  unfold roundNat
  simp only [hsub]
  calc 2 ^ 53 = 2 ^ 52 * 2 ^ 1 := by norm_num
    _ ≤ _ := Nat.mul_le_mul (hq.trans (by split_ifs <;> omega)) hpow

/-- Below `2 ^ 53` there is only an integer itself that is rounded to it. -/
theorem round_of_natAbs_lt : ∀ {n : ℤ}, (round n).natAbs < 2 ^ 53 → round n = n
  | .ofNat n, h => by
    refine round_of_le (le_of_lt (lt_of_not_ge fun hle => ?_))
    have hround := le_roundNat (n := n) hle
    simp only [round] at h
    omega
  | .negSucc n, h => by
    refine round_of_le (le_of_lt (lt_of_not_ge fun hle => ?_))
    have hround := le_roundNat (n := n + 1) hle
    simp only [round] at h
    omega

end Double
