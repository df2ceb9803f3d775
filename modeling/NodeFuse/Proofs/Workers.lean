import Mathlib.Data.List.Nodup
import Mathlib.Tactic.SplitIfs
import NodeFuse.Workers

/-!
# When the workers release their own

A field holds what its last assignment gave it (`Tracked`), so a worker acts on its own exactly when
that assignment was its own. A worker takes each action at most once (`Progress`), so what workers
release of their own is destroyed at most once.
-/

namespace NodeFuse.Workers

open Runs

def Pc.rank : Pc → ℕ
  | .setArgs => 0
  | .act .parseCmdline => 1
  | .setMountpoint => 2
  | .act .mountPoint => 3
  | .act .mountArgs => 4
  | .setChannel => 5
  | .checkChannel => 6
  | .act .lowlevelNew => 7
  | .setSession => 8
  | .checkSession => 9
  | .act .setHandlers => 10
  | .checkHandlers => 11
  | .act .addToSession => 12
  | .act .addChan => 13
  | .act .sessionLoop => 14
  | .act .removeHandlers => 15
  | .act .removeChan => 16
  | .act .sessionDestroy => 17
  | .act .unmountPoint => 18
  | .act .unmountChan => 19
  | .act .freeArgs => 20
  | .done => 21

/-- What a step does: a worker gets further, and on the way assigns a field or acts on one. -/
inductive Move (s : State) : Event → State → Prop
  | mount : Move s .mount { s with pcs := s.pcs ++ [.setArgs] }
  | goto (k : ℕ) (ok : Bool) (pc pc' : Pc) (hk : s.pcs[k]? = some pc) (hrank : pc.rank < pc'.rank)
      (hact : ∀ a, pc ≠ .act a) : Move s (.step k ok) (s.goto k pc')
  | assign (k : ℕ) (ok : Bool) (pc pc' : Pc) (f : Field) (created : Bool)
      (hk : s.pcs[k]? = some pc) (hrank : pc.rank < pc'.rank) (hact : ∀ a, pc ≠ .act a) :
    Move s (.step k ok) ((s.assign f k created).goto k pc')
  | use (k : ℕ) (ok : Bool) (a : Action) (hk : s.pcs[k]? = some (.act a)) :
    Move s (.step k ok) ((s.use k a).goto k a.next)

theorem rank_next (a : Action) : (Pc.act a).rank < a.next.rank := by
  cases a <;> decide

theorem move_of_step {s s' : State} {e : Event} (h : step s e = some s') : Move s e s' := by
  cases e with
  | mount =>
    obtain rfl := Option.some.inj h
    exact .mount
  | step k ok =>
    obtain ⟨pc, hk, hexec⟩ := Option.bind_eq_some_iff.1 h
    cases pc with
    | act a =>
      obtain rfl := Option.some.inj hexec
      exact .use k ok a hk
    | done => cases hexec
    | setArgs =>
      obtain rfl := Option.some.inj hexec
      exact .assign k ok _ _ _ _ hk (by decide) (by simp)
    | setMountpoint =>
      obtain rfl := Option.some.inj hexec
      cases ok with
      | true => exact .assign k true _ _ _ _ hk (by decide) (by simp)
      | false => exact .goto k false _ _ hk (by decide) (by simp)
    | setChannel | setSession =>
      obtain rfl := Option.some.inj hexec
      exact .assign k ok _ _ _ _ hk (by decide) (by simp)
    | checkChannel | checkSession | checkHandlers =>
      obtain rfl := Option.some.inj hexec
      exact .goto k ok _ _ hk (by split_ifs <;> decide) (by simp)

def Assignment.creator (x : Assignment) : Option ℕ := if x.created then some x.worker else none

def Tracked (s : State) : Prop := ∀ f, s.content f = (s.latest f).bind Assignment.creator

theorem tracked_assign {s : State} (hT : Tracked s) (f : Field) (k : ℕ) (created : Bool) :
    Tracked (s.assign f k created) := by
  intro g
  unfold State.assign State.latest
  simp only [List.find?_cons]
  by_cases hg : f = g
  · rw [hg, Function.update_self, decide_eq_true rfl]
    rfl
  · rw [Function.update_of_ne (Ne.symm hg), decide_eq_false hg]
    exact hT g

theorem tracked_step {s s' : State} {e : Event} (hT : Tracked s) (h : step s e = some s') :
    Tracked s' := by
  cases move_of_step h with
  | mount => exact hT
  | goto k ok pc pc' hk hrank hact => exact hT
  | assign k ok pc pc' f created hk hrank hact => exact tracked_assign hT f k created
  | use k ok a hk => exact hT

/-- What a field holds is a worker's own exactly when that worker assigned it last. -/
theorem content_eq_some_iff {s : State} (hT : Tracked s) (f : Field) (k : ℕ) :
    s.content f = some k ↔ s.latest f = some ⟨f, k, true⟩ := by
  rw [hT f, Option.bind_eq_some_iff]
  refine ⟨fun h => ?_, fun h => ?_⟩
  · obtain ⟨x, hx, hcreator⟩ := h
    have hf := List.find?_some hx
    rw [decide_eq_true_eq] at hf
    obtain ⟨hcreated, hk⟩ := Option.ite_none_right_eq_some.1 hcreator
    rw [hx, ← hf, ← Option.some.inj hk, ← hcreated]
  · exact ⟨_, h, rfl⟩

/-- A worker is past the actions it took, and took each of them once. -/
structure Progress (s : State) : Prop where
  past : ∀ u ∈ s.uses, ∃ pc, s.pcs[u.worker]? = some pc ∧ (Pc.act u.action).rank < pc.rank
  once : (s.uses.map fun u => (u.worker, u.action)).Nodup

theorem past_goto {s : State} {k : ℕ} {pc pc' : Pc} (hk : s.pcs[k]? = some pc)
    (hrank : pc.rank < pc'.rank) {u : Use}
    (h : ∃ pc, s.pcs[u.worker]? = some pc ∧ (Pc.act u.action).rank < pc.rank) :
    ∃ pc, (s.goto k pc').pcs[u.worker]? = some pc ∧ (Pc.act u.action).rank < pc.rank := by
  obtain ⟨q, hq, hlt⟩ := h
  unfold State.goto
  by_cases hu : k = u.worker
  · rw [← hu, hk, Option.some.injEq] at hq
    refine ⟨pc', ?_, by rw [← hq] at hlt; exact Nat.lt_trans hlt hrank⟩
    rw [← hu, List.getElem?_set_self (List.getElem?_eq_some_iff.1 hk).1]
  · refine ⟨q, ?_, hlt⟩
    rw [List.getElem?_set_ne hu]
    exact hq

theorem progress_step {s s' : State} {e : Event} (hP : Progress s) (h : step s e = some s') :
    Progress s' := by
  cases move_of_step h with
  | mount =>
    refine ⟨fun u hu => ?_, hP.once⟩
    obtain ⟨pc, hpc, hlt⟩ := hP.past u hu
    refine ⟨pc, ?_, hlt⟩
    rw [List.getElem?_append_left (List.getElem?_eq_some_iff.1 hpc).1]
    exact hpc
  | goto k ok pc pc' hk hrank hact =>
    exact ⟨fun u hu => past_goto hk hrank (hP.past u hu), hP.once⟩
  | assign k ok pc pc' f created hk hrank hact =>
    exact ⟨fun u hu => past_goto hk hrank (hP.past u hu), hP.once⟩
  | use k ok a hk =>
    refine ⟨fun u hu => ?_, ?_⟩
    · rcases List.mem_append.1 hu with hu | hu
      · exact past_goto hk (rank_next a) (hP.past u hu)
      · rw [List.mem_singleton.1 hu]
        refine ⟨a.next, ?_, rank_next a⟩
        exact List.getElem?_set_self (List.getElem?_eq_some_iff.1 hk).1
    · unfold State.use State.goto
      rw [List.map_append, List.map_singleton, List.nodup_append]
      refine ⟨hP.once, List.nodup_singleton _, fun x hx y hy hxy => ?_⟩
      obtain ⟨u, hu, rfl⟩ := List.mem_map.1 hx
      rw [List.mem_singleton.1 hy, Prod.mk.injEq] at hxy
      obtain ⟨pc, hpc, hlt⟩ := hP.past u hu
      -- the worker stands at this very action
      rw [hxy.1, hk, Option.some.injEq] at hpc
      rw [hxy.2, hpc] at hlt
      exact Nat.lt_irrefl _ hlt

theorem destroys_inj {a b : Action} (ha : a.destroys) (hb : b.destroys)
    (h : a.field = b.field) : a = b := by
  revert ha hb h
  cases a <;> cases b <;> decide

theorem isOwners_of_destroys {a : Action} (h : a.destroys) : a.isOwners := by
  revert h
  cases a <;> decide

theorem destroyed_nodup {s : State} (hP : Progress s)
    (hown : ∀ u ∈ s.uses, u.action.isOwners → u.creator = some u.worker) : s.destroyed.Nodup := by
  unfold State.destroyed
  refine List.Nodup.map_on ?_ (hP.once.of_map.filter _)
  intro u hu v hv huv
  obtain ⟨hu, hdu⟩ := List.mem_filter.1 hu
  obtain ⟨hv, hdv⟩ := List.mem_filter.1 hv
  rw [Prod.mk.injEq, hown u hu (isOwners_of_destroys hdu), hown v hv (isOwners_of_destroys hdv),
    Option.some.injEq] at huv
  have haction := destroys_inj hdu hdv huv.1
  exact List.inj_on_of_nodup_map hP.once hu hv (Prod.ext huv.2 haction)

section Own

variable (p : Action → Bool)

/-- What the workers did of these actions they did with what they had created. -/
def Own (s : State) : Prop := ∀ u ∈ s.uses, p u.action → u.creator = some u.worker

/-- A worker that does one of these assigned the field last, and not with `NULL`. -/
def AcquiredFor (s : State) : Event → Prop
  | .mount => True
  | .step k _ => ∀ a ∈ s.action? k, p a → s.latest a.field = some ⟨a.field, k, true⟩

theorem own_step_iff {s s' : State} {e : Event} (hT : Tracked s) (h : step s e = some s') :
    Own p s' ↔ Own p s ∧ AcquiredFor p s e := by
  have hinert : ∀ (k : ℕ) (ok : Bool) (pc : Pc), s.pcs[k]? = some pc → (∀ a, pc ≠ .act a) →
      AcquiredFor p s (.step k ok) := by
    intro k ok pc hk hact a ha
    unfold State.action? at ha
    rw [hk] at ha
    cases pc with
    | act a => exact absurd rfl (hact a)
    | _ => cases ha
  cases move_of_step h with
  | mount => exact (and_iff_left trivial).symm
  | goto k ok pc pc' hk hrank hact => exact (and_iff_left (hinert k ok pc hk hact)).symm
  | assign k ok pc pc' f created hk hrank hact =>
    exact (and_iff_left (hinert k ok pc hk hact)).symm
  | use k ok a hk =>
    have haction : s.action? k = some a := by
      unfold State.action?
      rw [hk]
    unfold Own AcquiredFor State.use State.goto
    rw [List.forall_mem_append, List.forall_mem_singleton]
    simp only [haction, Option.mem_def, Option.some.injEq, forall_eq']
    exact and_congr_right fun _ => imp_congr_right fun _ => content_eq_some_iff hT a.field k

end Own

/-- In a run each worker releases only its own, once, exactly when each finds in a field what it
assigned there last. -/
theorem own_only_iff (es : List Event) (s : State) (h : run step .init es = some s) :
    OwnOnly s ↔ Along step Acquired .init es := by
  have hP0 : Progress .init := ⟨fun u hu => absurd hu List.not_mem_nil, List.nodup_nil⟩
  have hP : Progress s := inv_of_any_run (fun _ _ _ => progress_step) hP0 h
  have hown : Own Action.isOwners s ↔ Own Action.isOwners .init ∧ Along step Acquired .init es :=
    good_iff_along (C := Acquired) (fun _ _ _ => tracked_step)
      (fun _ e _ hT hs => by cases e <;> exact own_step_iff _ hT hs) (fun _ => rfl) h
  have hinit : Own Action.isOwners .init := fun u hu => absurd hu List.not_mem_nil
  refine ⟨fun hO => ?_, fun hC => ?_⟩
  · exact (hown.1 hO.own).2
  · have ho := hown.2 ⟨hinit, hC⟩
    exact ⟨ho, destroyed_nodup hP ho⟩

/-- A worker's steps when nothing fails, to its session loop. -/
def toLoop (k : ℕ) : List Event := .mount :: List.replicate 15 (.step k true)

theorem one_worker_own_only :
    ∃ s, run step .init (toLoop 0 ++ List.replicate 6 (.step 0 true)) = some s
      ∧ s.destroyed.length = 4 ∧ OwnOnly s :=
  ⟨_, rfl, rfl, (own_only_iff (toLoop 0 ++ List.replicate 6 (.step 0 true)) _ rfl).2 (by decide)⟩

/-- Unmounting the first of two filesystems detaches and destroys what the second acquired. -/
theorem first_worker_destroys_second :
    ∃ s, run step .init (toLoop 0 ++ toLoop 1 ++ List.replicate 3 (.step 0 true)) = some s
      ∧ s.destroyed = [(.session, some 1)] ∧ ¬ OwnOnly s :=
  ⟨_, rfl, rfl, fun h => absurd (h.own ⟨0, .sessionDestroy, some 1⟩ (by decide) rfl) (by decide)⟩

end NodeFuse.Workers
