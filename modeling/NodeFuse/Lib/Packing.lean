import Mathlib.Data.List.Infix
import Mathlib.Data.Nat.Find
import Mathlib.Tactic.SplitIfs
import NodeFuse.Lib.Runs

/-!
# Packing items in order

Items with sizes are offered in order to a space of a given capacity, and each is taken if it still
fits (`taken`). An item that does not fit is passed over, so a later, smaller one may be taken: all
are taken exactly when they fit together (`passed_eq_nil_iff`). `fitCount` is the number of items
in the longest initial stretch that fits. Where every offer comes with a capacity of its own, what is
taken stays inside the space as long as each is met by `Inside`.
-/

namespace Packing

variable {α : Type*} (size : α → ℕ) (cap : ℕ)

def total : List α → ℕ
  | [] => 0
  | a :: l => size a + total l

@[simp] theorem total_nil : total size [] = 0 := rfl

@[simp] theorem total_cons (a : α) (l : List α) : total size (a :: l) = size a + total size l := rfl

/-- Only the sizes count. -/
theorem total_eq_map (l : List α) : total size l = total id (l.map size) := by
  induction l with
  | nil => rfl
  | cons a l ih => rw [total_cons, List.map_cons, total_cons, ih, id]

@[simp] theorem total_append (l m : List α) :
    total size (l ++ m) = total size l + total size m := by
  induction l with
  | nil => rw [List.nil_append, total_nil, Nat.zero_add]
  | cons a l ih => rw [List.cons_append, total_cons, total_cons, ih, Nat.add_assoc]

/-- The items taken, in order, when `used` is taken up already. -/
def taken : ℕ → List α → List α
  | _, [] => []
  | used, a :: l =>
    if used + size a ≤ cap then a :: taken (used + size a) l else taken used l

/-- The items that did not fit when they came. -/
def passed : ℕ → List α → List α
  | _, [] => []
  | used, a :: l =>
    if used + size a ≤ cap then passed (used + size a) l else a :: passed used l

theorem taken_le : ∀ (l : List α) {used : ℕ}, used ≤ cap →
    used + total size (taken size cap used l) ≤ cap
  | [], used, h => by simpa [taken] using h
  | a :: l, used, h => by
    simp only [taken]
    split_ifs with ha
    · have := taken_le l ha
      simp only [total_cons]
      omega
    · exact taken_le l h

theorem taken_of_fits : ∀ (l : List α) {used : ℕ}, used + total size l ≤ cap →
    taken size cap used l = l
  | [], _, _ => rfl
  | a :: l, used, h => by
    simp only [total_cons] at h
    simp only [taken]
    rw [if_pos (by omega), taken_of_fits l (by omega)]

theorem taken_concat (a : α) : ∀ (l : List α) (used : ℕ), taken size cap used (l ++ [a])
    = taken size cap used l
      ++ if used + total size (taken size cap used l) + size a ≤ cap then [a] else []
  | [], used => by
    rw [List.nil_append, taken, taken, total_nil, Nat.add_zero, List.nil_append]
    rfl
  | b :: l, used => by
    rw [List.cons_append, taken, taken]
    split_ifs with hb h h
    · rw [taken_concat a l, if_pos (by rw [total_cons] at h; omega), List.cons_append]
    · rw [taken_concat a l, if_neg (by rw [total_cons] at h; omega), List.cons_append]
    · rw [taken_concat a l, if_pos h]
    · rw [taken_concat a l, if_neg h]

theorem passed_concat (a : α) : ∀ (l : List α) (used : ℕ), passed size cap used (l ++ [a])
    = passed size cap used l
      ++ if used + total size (taken size cap used l) + size a ≤ cap then [] else [a]
  | [], used => by
    rw [List.nil_append, passed, passed, taken, total_nil, Nat.add_zero, List.nil_append]
    rfl
  | b :: l, used => by
    rw [List.cons_append, passed, passed, taken]
    split_ifs with hb h h
    · rw [passed_concat a l, if_pos (by rw [total_cons] at h; omega)]
    · rw [passed_concat a l, if_neg (by rw [total_cons] at h; omega)]
    · rw [passed_concat a l, if_pos h, List.cons_append]
    · rw [passed_concat a l, if_neg h, List.cons_append]

theorem mul_length_le_total {k : ℕ} (h : ∀ a, k ≤ size a) (l : List α) :
    k * l.length ≤ total size l := by
  induction l with
  | nil => exact le_rfl
  | cons a l ih =>
    have := h a
    rw [total_cons, List.length_cons, Nat.mul_succ]
    omega

/-- Nothing is passed over exactly when all the items fit together. -/
theorem passed_eq_nil_iff : ∀ (l : List α) {used : ℕ}, used ≤ cap →
    (passed size cap used l = [] ↔ used + total size l ≤ cap)
  | [], used, h => by simpa [passed] using h
  | a :: l, used, h => by
    simp only [passed, total_cons]
    split_ifs with ha
    · rw [passed_eq_nil_iff l ha, Nat.add_assoc]
    · refine ⟨fun h' => by simp at h', fun h' => absurd ?_ ha⟩
      omega

/-- How many items, from the first on, fit together: the largest such number. -/
def fitCount (l : List α) : ℕ := Nat.findGreatest (fun k => total size (l.take k) ≤ cap) l.length

theorem fitCount_le (l : List α) : fitCount size cap l ≤ l.length := Nat.findGreatest_le _

theorem total_take_fitCount (l : List α) : total size (l.take (fitCount size cap l)) ≤ cap :=
  Nat.findGreatest_spec (P := fun k => total size (l.take k) ≤ cap) (Nat.zero_le l.length)
    (by simp)

theorem le_fitCount {l : List α} {k : ℕ} (hk : k ≤ l.length) (h : total size (l.take k) ≤ cap) :
    k ≤ fitCount size cap l :=
  Nat.le_findGreatest hk h

theorem fitCount_of_fits {l : List α} (h : total size l ≤ cap) : fitCount size cap l = l.length :=
  le_antisymm (fitCount_le size cap l) (le_fitCount size cap le_rfl (by simpa using h))

/-- No item is in the stretch that fits exactly when there is none or the first is too large. -/
theorem fitCount_eq_zero_iff {l : List α} :
    fitCount size cap l = 0 ↔ ∀ a, l.head? = some a → cap < size a := by
  rcases l with _ | ⟨a, l⟩
  · simp [fitCount]
  · simp only [List.head?_cons, Option.some.injEq, forall_eq']
    refine ⟨fun h => ?_, fun h => ?_⟩
    · by_contra hle
      have : 1 ≤ fitCount size cap (a :: l) :=
        le_fitCount size cap (by simp) (by simpa using hle)
      omega
    · by_contra hne
      have hsum := total_take_fitCount size cap (a :: l)
      obtain ⟨k, hk⟩ := Nat.exists_eq_succ_of_ne_zero hne
      rw [hk, List.take_succ_cons, total_cons] at hsum
      omega

/-! ## A capacity with every offer -/

/-- An item of the size is offered while the capacity is claimed to be `cap`; what is taken up
then. -/
def offer (used : ℕ) (x : ℕ × ℕ) : Option ℕ :=
  some (if used + x.2 ≤ x.1 then used + x.2 else used)

/-- The claim covers what is taken up already and, if the item is taken, lies in the space. -/
def Inside (space used : ℕ) (x : ℕ × ℕ) : Prop :=
  used ≤ x.1 ∧ (used + x.2 ≤ x.1 → x.1 ≤ space)

instance (space used : ℕ) (x : ℕ × ℕ) : Decidable (Inside space used x) :=
  inferInstanceAs (Decidable (_ ∧ _))

/-- A claim of the whole space with every offer stays inside. -/
theorem along_inside_of_const : ∀ (l : List α) {used : ℕ}, used ≤ cap →
    Runs.Along offer (Inside cap) used (l.map fun a => (cap, size a))
  | [], _, _ => trivial
  | a :: l, used, h => by
    rw [List.map_cons, Runs.along_cons offer rfl]
    refine ⟨⟨h, fun _ => le_rfl⟩, along_inside_of_const l ?_⟩
    split_ifs with ha
    · exact ha
    · exact h

end Packing
