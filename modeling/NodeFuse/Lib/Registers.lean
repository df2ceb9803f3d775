import Mathlib.Data.List.Basic
import Mathlib.Data.List.Induction

/-!
# Registers

A state with named places that can be read and assigned. A place is a register (`IsRegister`) if it
reads as what was just assigned to it, and as before when another place was. After any assignments it
then reads as the last one made to it, or as it did at first (`IsRegister.read_foldl`), so leaving
some of them out is seen where the last one is among these (`IsRegister.read_filter_iff`).
-/

namespace Registers

variable {σ α ι ν : Type*} [DecidableEq ι] (name : α → ι) (value : α → ν)

/-- The last value assigned to a place, if one was. -/
def last (i : ι) (as : List α) : Option ν :=
  ((as.filter fun a => name a = i).getLast?).map value

theorem last_concat (i : ι) (as : List α) (a : α) :
    last name value i (as ++ [a])
      = if name a = i then some (value a) else last name value i as := by
  unfold last
  rw [List.filter_append]
  by_cases h : name a = i
  · have hfilter : [a].filter (fun a => name a = i) = [a] := by simp [h]
    rw [if_pos h, hfilter, List.getLast?_concat]
    rfl
  · have hfilter : [a].filter (fun a => name a = i) = [] := by simp [h]
    rw [if_neg h, hfilter, List.append_nil]

theorem last_eq_map (i : ι) (as : List α) : last name value i as = (last name id i as).map value := by
  unfold last
  rw [Option.map_id, id]

theorem name_of_last {i : ι} {as : List α} {a : α} (h : last name id i as = some a) :
    name a = i := by
  unfold last at h
  rw [Option.map_id, id] at h
  exact of_decide_eq_true (List.mem_filter.1 (List.mem_of_getLast? h)).2

theorem last_filter_of_none {i : ι} {as : List α} (h : last name id i as = none) (keep : α → Bool) :
    last name value i (as.filter keep) = none := by
  unfold last at h ⊢
  rw [Option.map_eq_none_iff, List.getLast?_eq_none_iff] at h ⊢
  rw [List.filter_comm, h, List.filter_nil]

theorem last_filter_of_some {i : ι} {as : List α} {a : α} {keep : α → Bool}
    (h : last name id i as = some a) (ha : keep a) :
    last name value i (as.filter keep) = some (value a) := by
  unfold last at h ⊢
  rw [Option.map_id, id, List.getLast?_eq_some_iff] at h
  obtain ⟨before, h⟩ := h
  have hkeep : [a].filter keep = [a] := by simp [ha]
  rw [List.filter_comm, h, List.filter_append, hkeep, List.getLast?_concat]
  rfl

structure IsRegister (read : σ → ι → ν) (assign : σ → α → σ) (i : ι) : Prop where
  read_same : ∀ s a, name a = i → read (assign s a) i = value a
  read_other : ∀ s a, name a ≠ i → read (assign s a) i = read s i

variable {name value}

theorem IsRegister.read_foldl {read : σ → ι → ν} {assign : σ → α → σ} {i : ι}
    (h : IsRegister name value read assign i) (s : σ) (as : List α) :
    read (as.foldl assign s) i = (last name value i as).getD (read s i) := by
  induction as using List.reverseRecOn with
  | nil => rfl
  | append_singleton as a ih =>
    rw [List.foldl_append, List.foldl_cons, List.foldl_nil, last_concat]
    by_cases ha : name a = i
    · rw [if_pos ha, h.read_same _ a ha]
      rfl
    · rw [if_neg ha, h.read_other _ a ha, ih]

/-- Leaving assignments out is not seen at a register exactly when the last one made to it stays, or
is of the value that the others leave there. -/
theorem IsRegister.read_filter_iff {read : σ → ι → ν} {assign : σ → α → σ} {i : ι}
    (h : IsRegister name value read assign i) (s : σ) (as : List α) (keep : α → Bool) :
    read (as.foldl assign s) i = read ((as.filter keep).foldl assign s) i
      ↔ ∀ a, last name id i as = some a → ¬ keep a →
        value a = (last name value i (as.filter keep)).getD (read s i) := by
  rw [h.read_foldl, h.read_foldl, last_eq_map]
  rcases hlast : last name id i as with _ | a
  · rw [last_filter_of_none name value hlast]
    simp
  · simp only [Option.map_some, Option.getD_some, Option.some.injEq, forall_eq']
    refine ⟨fun h _ => h, fun h => ?_⟩
    by_cases ha : keep a
    · rw [last_filter_of_some name value hlast ha]
      rfl
    · exact h ha

end Registers
