import Mathlib.Algebra.Ring.Basic
import Mathlib.Data.List.Induction
import Mathlib.Tactic.Ring

/-!
# Polynomial hashes

`rolling b l` is the polynomial with the coefficients `l` at `b`, the first one highest, as a hash
computes it that multiplies by `b` and adds. What is hashed after a prefix counts by itself, so texts of
the same length and value can stand for each other behind any prefix (`rolling_append_congr`), and texts
made of such pieces too (`rolling_flatMap`).
-/

namespace RollingHash

variable {R : Type*} [CommSemiring R] (b : R)

def rolling (l : List R) : R := l.foldl (fun h c => b * h + c) 0

@[simp] theorem rolling_nil : rolling b [] = 0 := rfl

theorem foldl_rolling (l : List R) (h : R) :
    l.foldl (fun h c => b * h + c) h = b ^ l.length * h + rolling b l := by
  induction l using List.reverseRecOn with
  | nil => simp
  | append_singleton l c ih =>
    unfold rolling at ih ⊢
    rw [List.foldl_append, List.foldl_append, List.foldl_cons, List.foldl_cons, List.foldl_nil,
      List.foldl_nil, ih, List.length_append, List.length_singleton]
    ring

/-- A prefix counts as often as there is text behind it. -/
theorem rolling_append (l m : List R) :
    rolling b (l ++ m) = b ^ m.length * rolling b l + rolling b m := by
  have h := foldl_rolling b m (rolling b l)
  rw [← h]
  unfold rolling
  rw [List.foldl_append]

theorem rolling_append_congr {m m' : List R} (hlen : m.length = m'.length)
    (h : rolling b m = rolling b m') (l : List R) : rolling b (l ++ m) = rolling b (l ++ m') := by
  rw [rolling_append, rolling_append, hlen, h]

/-- Of pieces of one length and value only the number counts. -/
theorem rolling_flatMap {α : Type*} {f : α → List R} {k : ℕ} {v : R} (hlen : ∀ a, (f a).length = k)
    (h : ∀ a, rolling b (f a) = v) {l m : List α} (hlm : l.length = m.length) :
    rolling b (l.flatMap f) = rolling b (m.flatMap f) := by
  induction l generalizing m with
  | nil =>
    obtain rfl := List.eq_nil_of_length_eq_zero hlm.symm
    rfl
  | cons a l ih =>
    rcases m with _ | ⟨c, m⟩
    · cases hlm
    · have hrest : l.length = m.length := Nat.succ.inj hlm
      have hlens : (l.flatMap f).length = (m.flatMap f).length := by
        simp [List.length_flatMap, hlen, List.map_const', hrest]
      rw [List.flatMap_cons, List.flatMap_cons, rolling_append, rolling_append, h a, h c, ih hrest,
        hlens]

end RollingHash
