import Mathlib.Algebra.Order.BigOperators.Group.List
import Mathlib.Data.List.Induction
import NodeFuse.Forget

/-!
# What becomes of the messages to forget

The request of a batch is released once, that of a single message never (`count_released`), and no
call reaches the method `forget` (`passed_eq_zero`).
-/

namespace NodeFuse.Forget

theorem foldl_forget (req : ℕ) (forgets : List FuseForgetData) (s : State) :
    forgets.foldl (fun s data => forget req data.ino data.nlookup s) s = s :=
  List.foldl_fixed' (fun _ => rfl) forgets

theorem receive_eq (s : State) (x : Message) :
    receive s x = { s with
      arrived := s.arrived + 1
      released := s.released ++ if x.isBatch then [s.arrived] else [] } := by
  cases x with
  | forget data =>
    show State.mk _ s.released _ = State.mk _ (s.released ++ []) _
    rw [List.append_nil]
    rfl
  | forgetMulti forgets =>
    unfold receive serve forgetMulti
    simp only [foldl_forget]
    rfl

theorem run_concat (xs : List Message) (x : Message) : run (xs ++ [x]) = receive (run xs) x := by
  rw [run, List.foldl_append]
  rfl

theorem arrived_run (xs : List Message) : (run xs).arrived = xs.length := by
  induction xs using List.reverseRecOn with
  | nil => rfl
  | append_singleton xs x ih =>
    rw [run_concat, receive_eq, List.length_append, List.length_singleton, ih]

theorem count_released (xs : List Message) (i : ℕ) :
    (run xs).released.count i = if xs[i]?.any Message.isBatch then 1 else 0 := by
  induction xs using List.reverseRecOn with
  | nil => rfl
  | append_singleton xs x ih =>
    rw [run_concat, receive_eq]
    simp only [List.count_append, arrived_run, ih]
    have hother : i ≠ xs.length → List.count i (if x.isBatch then [xs.length] else []) = 0 := by
      intro hne
      rw [List.count_eq_zero]
      split_ifs
      · rwa [List.mem_singleton]
      · exact List.not_mem_nil
    rcases lt_trichotomy i xs.length with hlt | rfl | hgt
    · rw [List.getElem?_append_left hlt, hother hlt.ne, add_zero]
    · rw [List.getElem?_concat_length, List.getElem?_eq_none le_rfl]
      cases x <;> simp [Message.isBatch]
    · have hlen : (xs ++ [x]).length ≤ i := by
        rw [List.length_append, List.length_singleton]
        omega
      rw [List.getElem?_eq_none hlen, List.getElem?_eq_none hgt.le, hother hgt.ne']
      rfl

theorem released_once_iff (xs : List Message) :
    (∀ i < xs.length, (run xs).released.count i = 1) ↔ ∀ x ∈ xs, x.isBatch := by
  simp only [count_released]
  refine ⟨fun h x hx => ?_, fun h i hi => ?_⟩
  · obtain ⟨i, hi, rfl⟩ := List.getElem_of_mem hx
    have hone := h i hi
    rw [List.getElem?_eq_getElem hi, Option.any_some] at hone
    by_contra hbatch
    rw [if_neg hbatch] at hone
    omega
  · rw [List.getElem?_eq_getElem hi, Option.any_some, if_pos (h _ (List.getElem_mem hi))]

theorem method_ne_forget (S : Session) (m : Mem) (r : Request) :
    (r.invocation S m).method ≠ "forget" := by
  cases r <;> simp [Request.invocation]

theorem passed_eq_zero (S : Session) (m : Mem) (ino : UInt64) (s : State) :
    passed S m ino s = 0 := by
  refine List.sum_eq_zero fun q hq => ?_
  obtain ⟨i, hi, rfl⟩ := List.mem_map.1 hq
  obtain ⟨d, -, hd⟩ := List.mem_flatMap.1 hi
  obtain ⟨r, -, rfl⟩ := List.mem_map.1 hd
  exact if_neg (method_ne_forget S m r)

theorem sent_eq_zero_iff (ino : UInt64) (xs : List Message) :
    sent ino xs = 0 ↔ ∀ x ∈ xs, ∀ data ∈ x.forgets, data.ino = ino → data.nlookup = 0 := by
  have hzero : ∀ n : UInt64, n.toNat = 0 ↔ n = 0 := fun n => UInt64.toNat_inj (b := 0)
  unfold sent
  rw [List.sum_eq_zero_iff]
  simp only [List.mem_map, List.mem_filter, List.mem_flatMap, decide_eq_true_eq]
  refine ⟨fun h x hx data hdata hino => ?_, fun h n hn => ?_⟩
  · exact (hzero _).1 (h _ ⟨data, ⟨⟨x, hx, hdata⟩, hino⟩, rfl⟩)
  · obtain ⟨data, ⟨⟨x, hx, hdata⟩, hino⟩, rfl⟩ := hn
    exact (hzero _).2 (h x hx data hdata hino)

/-- Messages to forget are accounted for exactly when all are batches, and of counts of zero. -/
theorem conserved_iff (S : Session) (m : Mem) (xs : List Message) :
    Conserved S m xs ↔ ∀ x ∈ xs, x.isBatch ∧ ∀ data ∈ x.forgets, data.nlookup = 0 := by
  have hcounts : (∀ ino, passed S m ino (run xs) = sent ino xs)
      ↔ ∀ x ∈ xs, ∀ data ∈ x.forgets, data.nlookup = 0 := by
    refine ⟨fun h x hx data hdata => ?_, fun h ino => ?_⟩
    · have hsent : ((sent data.ino xs : ℕ) : ℚ) = 0 := by
        rw [← h, passed_eq_zero]
      exact (sent_eq_zero_iff _ xs).1 (by exact_mod_cast hsent) x hx data hdata rfl
    · rw [passed_eq_zero, (sent_eq_zero_iff ino xs).2 fun x hx data hdata _ => h x hx data hdata]
      rfl
  rw [Conserved, released_once_iff, hcounts, ← forall₂_and]

/-- The request of a single message is not released, and its count goes nowhere. -/
theorem single_forget_lost :
    ¬ Conserved default default [.forget ⟨2, 1⟩]
      ∧ (run [.forget ⟨2, 1⟩]).released = []
      ∧ passed default default 2 (run [.forget ⟨2, 1⟩]) ≠ sent 2 [.forget ⟨2, 1⟩] := by
  have hsent : sent 2 [.forget ⟨2, 1⟩] = 1 := by decide
  refine ⟨fun h => ?_, rfl, ?_⟩
  · exact absurd (h.1 0 (by decide)) (by decide)
  · rw [passed_eq_zero, hsent]
    norm_num

end NodeFuse.Forget
