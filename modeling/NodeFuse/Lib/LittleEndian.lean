import Mathlib.Tactic.Ring
import Mathlib.Tactic.NormNum

/-!
# Little-endian fields

A field of `n` bytes holds a number below `256 ^ n`, its low byte first (`get_put`).
-/

namespace LittleEndian

/-- The low `n` bytes of `x`. -/
def put : ℕ → ℕ → List UInt8
  | 0, _ => []
  | n + 1, x => UInt8.ofNat (x % 256) :: put n (x / 256)

def get : List UInt8 → ℕ
  | [] => 0
  | b :: bytes => b.toNat + 256 * get bytes

@[simp] theorem length_put : ∀ n x, (put n x).length = n
  | 0, _ => rfl
  | n + 1, x => by rw [put, List.length_cons, length_put n]

theorem get_put : ∀ {n x : ℕ}, x < 256 ^ n → get (put n x) = x
  | 0, x, h => by
    rw [pow_zero] at h
    unfold put get
    omega
  | n + 1, x, h => by
    have hdiv : x / 256 < 256 ^ n := by
      rw [pow_succ] at h
      omega
    have hbyte : (UInt8.ofNat (x % 256)).toNat = x % 256 := by
      rw [UInt8.toNat_ofNat']
      omega
    unfold put get
    rw [get_put hdiv, hbyte]
    omega

end LittleEndian
