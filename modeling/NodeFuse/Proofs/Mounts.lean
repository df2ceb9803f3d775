import Mathlib.Data.List.Find
import Mathlib.Tactic.SplitIfs
import NodeFuse.Mounts

/-!
# When mounts are isolated

`CI` is the `Fuse` object of the last mount call, and `fsobj` belongs to the worker that started last
on it (`Tracked`). A callback therefore reaches its own mount's filesystem exactly when its mount is
the one that these two lead to.
-/

namespace NodeFuse.Mounts

open Runs

inductive Move (s : State) : Event → State → Prop
  | mount (fuse : ℕ) :
    Move s (.mount fuse) { s with mounts := s.mounts ++ [fuse], ci := some fuse }
  | start (k fuse : ℕ) (hk : s.mounts[k]? = some fuse) (hnew : k ∉ s.started) :
    Move s (.start k) { s with
      started := k :: s.started
      fsobj := Function.update s.fsobj fuse (some k) }
  | request (k : ℕ) (r : Request) (hk : k ∈ s.started) :
    Move s (.request k r) { s with waiting := s.waiting ++ [(k, r)] }
  | callback (k fuse : ℕ) (r : Request) (hci : s.ci = some fuse) :
    Move s (.callback k r)
      (State.access { s with waiting := s.waiting.erase (k, r) } k fuse (.calling k fuse r))
  | invoke (k fuse : ℕ) (r : Request) (hl : s.loop = .calling k fuse r) :
    Move s .invoke (s.access k fuse (if r.emits then .called k fuse else .polling))
  | lookupNotice (k fuse : ℕ) (hl : s.loop = .called k fuse) :
    Move s .lookupNotice (s.access k fuse (.noticing k fuse))
  | notify (k fuse : ℕ) (hl : s.loop = .noticing k fuse) :
    Move s .notify (s.access k fuse .polling)

theorem move_of_step {s s' : State} {e : Event} (h : step s e = some s') : Move s e s' := by
  cases e with
  | mount fuse =>
    obtain ⟨-, ⟨⟩⟩ := Option.ite_none_right_eq_some.1 h
    exact .mount fuse
  | start k =>
    simp only [step] at h
    split at h
    · next fuse hk =>
      obtain ⟨hnew, ⟨⟩⟩ := Option.ite_none_left_eq_some.1 h
      exact .start k fuse hk hnew
    · cases h
  | request k r =>
    obtain ⟨hk, ⟨⟩⟩ := Option.ite_none_right_eq_some.1 h
    exact .request k r hk
  | callback k r =>
    simp only [step] at h
    split at h
    · next fuse hci =>
      obtain ⟨-, ⟨⟩⟩ := Option.ite_none_right_eq_some.1 h
      exact .callback k fuse r hci
    · cases h
  | invoke =>
    simp only [step] at h
    split at h
    · next k fuse r hl =>
      obtain rfl := Option.some.inj h
      exact .invoke k fuse r hl
    · cases h
  | lookupNotice =>
    simp only [step] at h
    split at h
    · next k fuse hl =>
      obtain rfl := Option.some.inj h
      exact .lookupNotice k fuse hl
    · cases h
  | notify =>
    simp only [step] at h
    split at h
    · next k fuse hl =>
      obtain rfl := Option.some.inj h
      exact .notify k fuse hl
    · cases h

/-- What `CI` and the `fsobj` fields hold, by the calls and the workers so far. -/
structure Tracked (s : State) : Prop where
  ci : s.ci = s.mounts.getLast?
  fsobj : ∀ fuse, s.fsobj fuse = s.newest fuse
  started : ∀ k ∈ s.started, k < s.mounts.length

theorem tracked_init : Tracked .init :=
  ⟨rfl, fun _ => rfl, fun _ hk => absurd hk List.not_mem_nil⟩

theorem newest_start {s : State} {k fuse : ℕ} (hk : s.mounts[k]? = some fuse) (g : ℕ)
    (f : ℕ → Option ℕ) :
    State.newest { s with started := k :: s.started, fsobj := f } g
      = if g = fuse then some k else s.newest g := by
  unfold State.newest
  simp only [List.find?_cons, hk, Option.some.injEq]
  by_cases hg : fuse = g
  · rw [if_pos hg.symm, decide_eq_true hg]
  · rw [if_neg (Ne.symm hg), decide_eq_false hg]

theorem newest_mount {s : State} (hT : Tracked s) (fuse g : ℕ) (c : Option ℕ) :
    State.newest { s with mounts := s.mounts ++ [fuse], ci := c } g = s.newest g := by
  unfold State.newest
  refine List.find?_congr fun k hk => ?_
  rw [List.getElem?_append_left (hT.started k hk)]

theorem tracked_step {s s' : State} {e : Event} (hT : Tracked s) (h : step s e = some s') :
    Tracked s' := by
  cases move_of_step h with
  | mount fuse =>
    refine ⟨?_, fun g => ?_, fun k hk => ?_⟩
    · rw [List.getLast?_concat]
    · rw [newest_mount hT]
      exact hT.fsobj g
    · have := hT.started k hk
      rw [List.length_append]
      omega
  | start k fuse hk hnew =>
    refine ⟨hT.ci, fun g => ?_, fun j hj => ?_⟩
    · rw [newest_start hk]
      split_ifs with hg
      · rw [hg]
        exact Function.update_self _ _ _
      · rw [← hT.fsobj g]
        exact Function.update_of_ne hg _ _
    · rcases List.mem_cons.1 hj with rfl | hj
      · exact (List.getElem?_eq_some_iff.1 hk).1
      · exact hT.started j hj
  | request | callback | invoke | lookupNotice | notify => exact ⟨hT.ci, hT.fsobj, hT.started⟩

theorem isolated_access (s : State) (k fuse : ℕ) (l : Loop) :
    Isolated (s.access k fuse l) ↔ Isolated s ∧ s.fsobj fuse = some k := by
  unfold Isolated State.access
  rw [List.forall_mem_append, List.forall_mem_singleton]

/-- With a request under way, what is done for it stays with its mount exactly when no other worker has
started on the `Fuse` object. -/
theorem isolated_serving {s : State} (hT : Tracked s) {k fuse : ℕ}
    (hl : s.loop.serving? = some (k, fuse)) (l : Loop) :
    Isolated (s.access k fuse l)
      ↔ Isolated s ∧ ∀ x ∈ s.loop.serving?, s.newest x.2 = some x.1 := by
  rw [isolated_access, hT.fsobj, hl]
  simp

/-- A step keeps the mounts isolated exactly when the callback is not displaced. -/
theorem isolated_step_iff {s s' : State} {e : Event} (hT : Tracked s)
    (h : step s e = some s') : Isolated s' ↔ Isolated s ∧ Undisplaced s e := by
  cases move_of_step h with
  | mount | start | request => exact (and_iff_left trivial).symm
  | callback k fuse r hci =>
    have hlast : s.mounts.getLast? = some fuse := hT.ci.symm.trans hci
    rw [isolated_access]
    unfold Undisplaced
    rw [hlast]
    simp only [Option.mem_some_iff, forall_eq', ← hT.fsobj]
    exact Iff.rfl
  | invoke k fuse r hl => exact isolated_serving hT (by rw [hl]; rfl) _
  | lookupNotice k fuse hl => exact isolated_serving hT (by rw [hl]; rfl) _
  | notify k fuse hl => exact isolated_serving hT (by rw [hl]; rfl) _

/-- Every request of a run is dispatched to the filesystem object of its own mount exactly when no
callback of the run is displaced by another mount. -/
theorem isolated_iff (es : List Event) (s : State) (h : run step .init es = some s) :
    Isolated s ↔ Along step Undisplaced .init es := by
  have hinit : Isolated .init := fun a ha => absurd ha List.not_mem_nil
  rw [good_iff_along (fun _ _ _ => tracked_step) (fun _ _ _ => isolated_step_iff) tracked_init h]
  exact and_iff_right hinit

theorem one_mount_isolated :
    ∃ s, run step .init [.mount 0, .start 0, .request 0 (.readLink 1 2),
        .callback 0 (.readLink 1 2), .invoke, .lookupNotice, .notify] = some s
      ∧ s.accesses.length = 4 ∧ Isolated s :=
  ⟨_, rfl, rfl, (isolated_iff [.mount 0, .start 0, .request 0 (.readLink 1 2),
    .callback 0 (.readLink 1 2), .invoke, .lookupNotice, .notify] _ rfl).2 (by decide)⟩

/-- After a second mount, on another `Fuse` object, it serves the requests of the first. A second worker
that starts on the same `Fuse` object while a method runs has the request noticed by its own filesystem
object. -/
theorem second_mount_serves_first :
    (∃ s, run step .init [.mount 0, .start 0, .mount 1, .start 1, .request 0 (.readLink 1 2),
          .callback 0 (.readLink 1 2), .invoke] = some s
        ∧ s.accesses = [⟨0, some 1⟩, ⟨0, some 1⟩] ∧ ¬ Isolated s)
      ∧ ∃ s, run step .init [.mount 0, .start 0, .mount 0, .request 0 (.readLink 1 2),
          .callback 0 (.readLink 1 2), .invoke, .start 1, .lookupNotice, .notify] = some s
        ∧ s.accesses = [⟨0, some 0⟩, ⟨0, some 0⟩, ⟨0, some 1⟩, ⟨0, some 1⟩] ∧ ¬ Isolated s :=
  ⟨⟨_, rfl, rfl, by decide⟩, ⟨_, rfl, rfl, by decide⟩⟩

end NodeFuse.Mounts
