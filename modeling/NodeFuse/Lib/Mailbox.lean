import Mathlib.Data.Finset.Card
import Mathlib.Data.List.Sort

/-!
# A mailbox with one slot

Letters are numbered as they are put in, each in place of the one before, and whoever looks takes the
newest. While a letter is put in only after all before it, but for one, have been looked for, the letters
come out in order, none more than twice (`count_le_two`), and once as many have been taken as were put
in, the last one came out last (`getLast?_taken`) and none is missing unless one came out twice
(`complete_iff_nodup`).
-/

/-- What has been put in and taken so far. -/
structure Mailbox where
  put : ℕ
  taken : List ℕ
  taken_lt : ∀ i ∈ taken, i < put
  sorted : taken.Pairwise (· ≤ ·)
  le : ∀ i, taken.countP (· < i) ≤ i
  /-- When a letter was put in, at most one of those before it was still to be looked for. -/
  ge : ∀ i < put, i ≤ taken.countP (· < i) + 1

namespace Mailbox

def empty : Mailbox where
  put := 0
  taken := []
  taken_lt := by simp
  sorted := .nil
  le := by simp
  ge := by simp

variable (b : Mailbox)

theorem countP_put : b.taken.countP (· < b.put) = b.taken.length := by
  rw [List.countP_eq_length]
  intro i hi
  simpa using b.taken_lt i hi

def putNext (h : b.put ≤ b.taken.length + 1) : Mailbox where
  put := b.put + 1
  taken := b.taken
  taken_lt := fun i hi => Nat.lt_succ_of_lt (b.taken_lt i hi)
  sorted := b.sorted
  le := b.le
  ge := by
    intro i hi
    rcases Nat.lt_succ_iff_lt_or_eq.1 hi with hi | rfl
    · exact b.ge i hi
    · rw [b.countP_put]
      exact h

def takeNewest (h : b.taken.length < b.put) : Mailbox where
  put := b.put
  taken := b.taken ++ [b.put - 1]
  taken_lt := by
    intro i hi
    rcases List.mem_append.1 hi with hi | hi
    · exact b.taken_lt i hi
    · rw [List.mem_singleton.1 hi]
      omega
  sorted := by
    rw [List.pairwise_append]
    refine ⟨b.sorted, List.pairwise_singleton _ _, fun i hi j hj => ?_⟩
    have := b.taken_lt i hi
    rw [List.mem_singleton.1 hj]
    omega
  le := by
    intro i
    rw [List.countP_append]
    by_cases hi : b.put ≤ i
    · have h1 : b.taken.countP (· < i) ≤ b.taken.length := List.countP_le_length
      have h2 : [b.put - 1].countP (· < i) ≤ 1 := List.countP_le_length
      omega
    · have h1 : [b.put - 1].countP (· < i) = 0 := by
        rw [List.countP_eq_zero]
        simp only [List.mem_singleton, forall_eq, decide_eq_true_eq]
        omega
      rw [h1]
      exact b.le i
  ge := by
    intro i hi
    rw [List.countP_append]
    exact (b.ge i hi).trans (by omega)

/-- Those below `i + 1` are those below `i` and `i` itself. -/
theorem countP_succ (l : List ℕ) (i : ℕ) :
    l.countP (· < i + 1) = l.countP (· < i) + l.count i := by
  induction l with
  | nil => rfl
  | cons a l ih =>
    rw [List.countP_cons, List.countP_cons, List.count_cons, ih]
    rcases lt_trichotomy a i with h | h | h
    · simp [h, h.ne, Nat.lt_succ_of_lt h]
      omega
    · subst h
      simp
      omega
    · have h1 : ¬ a < i + 1 := by omega
      have h2 : ¬ a < i := by omega
      simp [h1, h2, h.ne']

theorem count_le_two (i : ℕ) : b.taken.count i ≤ 2 := by
  by_cases hi : i < b.put
  · have h1 := b.le (i + 1)
    have h2 := b.ge i hi
    rw [countP_succ] at h1
    omega
  · rw [List.count_eq_zero_of_not_mem fun hmem => hi (b.taken_lt i hmem)]
    omega

variable {b}

/-- While two have still to be looked for, the newest has not come out. -/
theorem newest_not_mem_taken (h : b.taken.length + 2 ≤ b.put) : b.put - 1 ∉ b.taken := by
  intro hmem
  have hge := b.ge (b.put - 1) (by omega)
  -- all that were taken would be older
  have hall : b.taken.countP (· < b.put - 1) = b.taken.length := by
    have hle : b.taken.countP (· < b.put - 1) ≤ b.taken.length := List.countP_le_length
    omega
  rw [List.countP_eq_length] at hall
  have hlt := hall _ hmem
  simp at hlt

theorem getLast?_taken (h : b.taken.length = b.put) (hpos : 0 < b.put) :
    b.taken.getLast? = some (b.put - 1) := by
  have hne : b.taken ≠ [] := List.ne_nil_of_length_pos (h ▸ hpos)
  rw [List.getLast?_eq_some_getLast hne, Option.some.injEq]
  have hlt := b.taken_lt _ (List.getLast_mem hne)
  by_contra hlast
  -- then all of them were below the last letter, which is one too many
  have hall : b.taken.countP (· < b.put - 1) = b.taken.length := by
    rw [List.countP_eq_length]
    intro i hi
    have hle : i ≤ b.taken.getLast hne := by
      rw [← List.dropLast_append_getLast hne, List.mem_append, List.mem_singleton] at hi
      rcases hi with hi | rfl
      · have hsorted := b.sorted
        rw [← List.dropLast_append_getLast hne, List.pairwise_append] at hsorted
        exact hsorted.2.2 i hi _ (List.mem_singleton_self _)
      · exact le_rfl
    simp only [decide_eq_true_eq]
    omega
  have := b.le (b.put - 1)
  omega

/-- As many as were put in have come out: none is missing exactly when none came out twice. -/
theorem complete_iff_nodup (h : b.taken.length = b.put) :
    (∀ i < b.put, i ∈ b.taken) ↔ b.taken.Nodup := by
  have hsubset : b.taken.toFinset ⊆ Finset.range b.put := by
    intro i hi
    exact Finset.mem_range.2 (b.taken_lt i (List.mem_toFinset.1 hi))
  have hcard : (Finset.range b.put).card = b.taken.length := by
    rw [Finset.card_range, h]
  refine ⟨fun hall => ?_, fun hnodup i hi => ?_⟩
  · have hrange : b.taken.toFinset = Finset.range b.put :=
      hsubset.antisymm fun i hi => List.mem_toFinset.2 (hall i (Finset.mem_range.1 hi))
    rw [← hrange] at hcard
    exact Multiset.coe_nodup.1 (Multiset.toFinset_card_eq_card_iff_nodup.1 hcard)
  · rw [← List.toFinset_card_of_nodup hnodup] at hcard
    have hrange := Finset.eq_of_subset_of_card_le hsubset hcard.le
    rw [← List.mem_toFinset, hrange]
    exact Finset.mem_range.2 hi

/-- Without a repetition they came out as they were put in. -/
theorem taken_eq_range (h : b.taken.length = b.put) (hnodup : b.taken.Nodup) :
    b.taken = List.range b.put := by
  have hperm : b.taken.Perm (List.range b.put) := by
    rw [List.perm_ext_iff_of_nodup hnodup List.nodup_range]
    intro i
    rw [List.mem_range]
    exact ⟨b.taken_lt i, (complete_iff_nodup h).2 hnodup i⟩
  refine hperm.eq_of_pairwise (fun i j _ _ hij hji => Nat.le_antisymm hij hji) b.sorted ?_
  exact List.pairwise_le_range

end Mailbox
