import Mathlib.Tactic.TFAE
import NodeFuse.Lib.Mailbox
import NodeFuse.Proofs.Handoff

/-!
# What is handed over whatever the order

`data` is a mailbox with one slot (`boxed_step`), so records come out in order and none more than twice,
however the parties interleave. Without new requests both come to rest (`comes_to_rest`), and at rest a
record was lost exactly when another was passed twice, which reads memory that is freed.
-/

namespace NodeFuse.Handoff

open Runs

/-- The mailbox that `data` is: a store puts a record in, a call takes one out. -/
structure Boxed (s : State) (b : Mailbox) : Prop where
  put : b.put = s.created.length
  taken : s.calls.map Call.pArgument = b.taken.map Slot.record

theorem Boxed.length {s : State} {b : Mailbox} (h : Boxed s b) :
    b.taken.length = s.calls.length := by
  have hlen := congrArg List.length h.taken
  simpa using hlen.symm

theorem boxed_step {s s' : State} {e : Event} {b : Mailbox} (hT : Tally s) (hB : Boxed s b)
    (h : step s e = some s') : ∃ b', Boxed s' b' := by
  have hcount := hT.count
  have hlen := hB.length
  have hput := hB.put
  cases move_of_step h with
  | write d hw =>
    have hp := hT.writing d hw
    have htaken : s.loop.taken ≤ 1 := by cases s.loop <;> simp [Loop.taken]
    rw [hw] at hcount
    simp only [Worker.stored] at hcount
    refine ⟨b.putNext (by omega), ?_, hB.taken⟩
    simp only [Mailbox.putNext, List.length_append, List.length_singleton]
    omega
  | call argument op hl ho =>
    rw [hl] at hcount
    simp only [Loop.taken] at hcount
    refine ⟨b.takeNewest (by omega), hB.put, ?_⟩
    obtain ⟨n, hn⟩ : ∃ n, s.created.length = n + 1 := ⟨_, by rw [hcount]⟩
    simp only [List.map_append, List.map_cons, List.map_nil, Mailbox.takeNewest, hB.taken,
      hT.newest n hn]
    rw [hput, hn, Nat.add_sub_cancel]
  | arrive | wait | pass | send | clear | readOp => exact ⟨b, hput, hB.taken⟩

/-- What the parties keep in any order. -/
def Kept (s : State) : Prop := Tally s ∧ Known s ∧ ∃ b, Boxed s b

theorem kept_init : Kept .init := ⟨tally_init, known_init, .empty, rfl, rfl⟩

theorem kept_step {s : State} {e : Event} {s' : State} (hK : Kept s) (h : step s e = some s') :
    Kept s' := by
  obtain ⟨hT, hK, b, hB⟩ := hK
  exact ⟨tally_step hT h, known_step hT hK h, boxed_step hT hB h⟩

theorem kept_run {es : List Event} {s : State} (h : run step .init es = some s) : Kept s :=
  inv_of_any_run (fun _ _ _ => kept_step) kept_init h

/-- In every order of the steps the records are passed in the order of their creation, and none more
than twice. -/
theorem in_turn (es : List Event) (s : State) (h : run step .init es = some s) : InTurn s := by
  obtain ⟨-, -, b, hB⟩ := kept_run h
  refine ⟨⟨b.taken, hB.taken, b.sorted⟩, fun i => ?_⟩
  have hinj : Function.Injective Slot.record := fun i j hij => Slot.record.inj hij
  rw [hB.taken, List.count_map_of_injective _ _ hinj]
  exact b.count_le_two i

/-- The second request is stored under the first callback and passed twice. -/
theorem two_calls_in_turn :
    ∃ s, run step .init [.arrive 0 (.readLink 1 2), .test, .write, .send, .clear,
        .arrive 0 (.readLink 3 4), .test, .write, .readOp, .call, .send, .clear, .readOp, .call]
          = some s
      ∧ (s.calls.map Call.pArgument).count (.record 1) = 2 ∧ InTurn s :=
  ⟨_, rfl, by decide, in_turn [.arrive 0 (.readLink 1 2), .test, .write, .send, .clear,
    .arrive 0 (.readLink 3 4), .test, .write, .readOp, .call, .send, .clear, .readOp, .call] _ rfl⟩

section Quiet

variable {es : List Event} {s : State}

theorem length_calls_of_quiet (hT : Tally s) (hquiet : Quiet s) :
    s.calls.length = s.created.length := by
  have hcount := hT.count
  rw [hquiet.worker, hquiet.loop, hquiet.pending] at hcount
  simpa [Worker.stored, Loop.taken] using hcount.symm

/-- At rest the mailbox has been looked into as often as something was put in. -/
theorem full_of_quiet {b : Mailbox} (hT : Tally s) (hB : Boxed s b) (hquiet : Quiet s) :
    b.taken.length = b.put := by
  rw [hB.length, hB.put, length_calls_of_quiet hT hquiet]

theorem Boxed.records {b : Mailbox} (hB : Boxed s b) :
    s.records = (List.range b.put).map Slot.record := by
  rw [hB.put]
  rfl

theorem last_call_of_quiet (h : run step .init es = some s) (hquiet : Quiet s) :
    (s.calls.map Call.pArgument).getLast? = s.records.getLast? := by
  obtain ⟨hT, -, b, hB⟩ := kept_run h
  have hfull := full_of_quiet hT hB hquiet
  rw [hB.taken, hB.records, List.getLast?_map, List.getLast?_map]
  rcases Nat.eq_zero_or_pos b.put with hzero | hpos
  · rw [List.length_eq_zero_iff.1 (hfull.trans hzero), hzero]
    rfl
  · rw [Mailbox.getLast?_taken hfull hpos, List.getLast?_range, if_neg (by omega)]

theorem called_once_tfae (h : run step .init es = some s) (hquiet : Quiet s) :
    [∀ r ∈ s.records, r ∈ s.calls.map Call.pArgument, (s.calls.map Call.pArgument).Nodup,
      s.calls.map Call.pArgument = s.records, Along step NoOverwrite .init es].TFAE := by
  obtain ⟨hT, -, b, hB⟩ := kept_run h
  have hfull := full_of_quiet hT hB hquiet
  have hinj : Function.Injective Slot.record := fun i j hij => Slot.record.inj hij
  have hgood : Intact s ↔ Intact .init ∧ Along step NoOverwrite .init es :=
    good_iff_along (fun _ _ _ => tally_step) (fun _ _ _ => intact_step_iff) tally_init h
  unfold Intact Ordered at hgood
  rw [hB.taken, hB.records] at *
  tfae_have 1 ↔ 2 := by
    rw [List.nodup_map_iff hinj, ← Mailbox.complete_iff_nodup hfull]
    simp
  tfae_have 2 → 3 := by
    intro hnodup
    rw [List.nodup_map_iff hinj] at hnodup
    rw [Mailbox.taken_eq_range hfull hnodup]
  tfae_have 3 → 4 := by
    intro heq
    rw [heq] at hgood
    exact (hgood.1 ⟨List.prefix_refl _, fun hne => absurd hquiet.loop hne⟩).2
  tfae_have 4 → 3 := by
    intro hC
    have hprefix := (hgood.2 ⟨⟨List.nil_prefix, fun hne => absurd rfl hne⟩, hC⟩).1
    exact hprefix.eq_of_length (by simp [hfull])
  tfae_have 3 → 2 := by
    intro heq
    rw [heq]
    exact List.nodup_range.map hinj
  tfae_finish

end Quiet

/-- At rest the records that were passed are as many as were created, the newest one came last, and
these say the same: every record was passed, none was passed twice, they were passed in order, and none
was stored under a callback. -/
theorem at_rest (es : List Event) (s : State) (h : run step .init es = some s) (hquiet : Quiet s) :
    s.calls.length = s.created.length
      ∧ (s.calls.map Call.pArgument).getLast? = s.records.getLast?
      ∧ [∀ r ∈ s.records, r ∈ s.calls.map Call.pArgument, (s.calls.map Call.pArgument).Nodup,
        s.calls.map Call.pArgument = s.records, Along step NoOverwrite .init es].TFAE :=
  ⟨length_calls_of_quiet (kept_run h).1 hquiet, last_call_of_quiet h hquiet,
    called_once_tfae h hquiet⟩

/-- The first of two requests is lost, and the second is passed twice. -/
theorem second_request_called_twice :
    ∃ s, run step .init [.arrive 0 (.readLink 1 2), .test, .write, .send, .clear,
        .arrive 0 (.readLink 3 4), .test, .write, .readOp, .call, .send, .clear, .readOp, .call]
          = some s
      ∧ s.calls.map Call.pArgument = [.record 1, .record 1]
      ∧ s.calls.length = s.created.length :=
  ⟨_, rfl, rfl, (at_rest [.arrive 0 (.readLink 1 2), .test, .write, .send, .clear,
    .arrive 0 (.readLink 3 4), .test, .write, .readOp, .call, .send, .clear, .readOp, .call] _ rfl
    ⟨rfl, rfl, rfl⟩).1⟩

/-! ## Coming to rest -/

/-- What the worker has before it, a wake-up that is pending and what the loop has before it. -/
def Worker.ahead : Worker → ℕ
  | .idle => 0
  | .sending => 4
  | .writing _ => 5
  | .waiting _ => 6

def Loop.ahead : Loop → ℕ
  | .polling => 0
  | .named _ => 1
  | .cleared => 2

def rank (s : State) : ℕ := s.worker.ahead + 3 * s.async.pending + s.loop.ahead

theorem rank_le {s : State} (hT : Tally s) : rank s ≤ 11 := by
  have hp := hT.pending_le
  have hl : s.loop.ahead ≤ 2 := by cases s.loop <;> simp [Loop.ahead]
  have hw : s.worker.ahead ≤ 6 := by cases s.worker <;> simp [Worker.ahead]
  unfold rank
  omega

/-- Only the test that finds `pending` set leaves the state as it is; all the rest is used up. -/
theorem rank_step {s s' : State} {e : Event} (hT : Tally s) (he : e.isArrival = false)
    (h : step s e = some s') : s' = s ∨ rank s' < rank s := by
  unfold rank
  cases move_of_step h with
  | arrive copy r hw => cases he
  | wait d hw hp => exact .inl rfl
  | pass d hw hp => exact .inr (by simp [hw, Worker.ahead])
  | write d hw => exact .inr (by simp [hw, Worker.ahead])
  | send hw =>
    have hp := hT.sending hw
    exact .inr (by simp [hw, hp, Worker.ahead, Async.send])
  | clear hl hp => exact .inr (by simp [hl, hp, Loop.ahead])
  | readOp hl => exact .inr (by simp [hl, Loop.ahead])
  | call argument op hl ho => exact .inr (by simp [hl, Loop.ahead])

/-- A party that is not at rest can go on, or the other one can. -/
theorem quiet_of_stuck {s : State} (hK : Kept s)
    (hstuck : ∀ e s', e.isArrival = false → step s e = some s' → s' = s) : Quiet s := by
  obtain ⟨hT, hknown, -⟩ := hK
  have hloop : s.loop = .polling := by
    rcases hl : s.loop with _ | _ | argument
    · rfl
    · have heq := hstuck .readOp _ rfl (if_pos hl)
      exact absurd (congrArg State.loop heq) (by simp [hl])
    · obtain ⟨op, ho⟩ := Option.isSome_iff_exists.1 (hknown.argument argument hl).1
      have hstep : step s .call = some { s with
          calls := s.calls ++ [⟨op, s.async.data⟩], loop := .polling } := by
        simp [step, hl, ho]
      have heq := hstuck .call _ rfl hstep
      exact absurd (congrArg State.loop heq) (by simp [hl])
  have hpending : s.async.pending = 0 := by
    have hle := hT.pending_le
    by_contra hne
    have hp : s.async.pending = 1 := by omega
    have heq := hstuck .clear _ rfl (if_pos ⟨hloop, hp⟩)
    exact absurd (congrArg State.loop heq) (by simp [hloop])
  refine ⟨?_, hloop, hpending⟩
  rcases hw : s.worker with _ | d | d | _
  · rfl
  · have hstep : step s .test = some { s with worker := .writing d } := by
      simp [step, hw, hpending]
    have heq := hstuck .test _ rfl hstep
    exact absurd (congrArg State.worker heq) (by simp [hw])
  · have hstep : step s .write = some { s with
        async := { s.async with data := .record s.created.length }
        created := s.created ++ [d]
        worker := .sending } := by
      simp [step, hw]
    have heq := hstuck .write _ rfl hstep
    exact absurd (congrArg State.worker heq) (by simp [hw])
  · have heq := hstuck .send _ rfl (if_pos hw)
    exact absurd (congrArg State.worker heq) (by simp [hw])

/-- After any run, without new requests, the parties change their state at most eleven times in
whatever order, and where nothing changes it any more they are at rest. -/
theorem comes_to_rest (es fs : List Event) (s s' : State) (h : run step .init es = some s)
    (hfs : ∀ e ∈ fs, e.isArrival = false) (h' : run step s fs = some s') :
    moves step s fs ≤ 11
      ∧ ((∀ e t, e.isArrival = false → step s' e = some t → t = s') → Quiet s') := by
  have hK := kept_run h
  refine ⟨?_, quiet_of_stuck (inv_of_any_run (fun _ _ _ => kept_step) hK h')⟩
  have hmoves : moves step s fs ≤ rank s :=
    moves_le_rank (fun _ _ _ => tally_step) (fun _ _ _ => rank_step) fs hK.1 hfs
  exact hmoves.trans (rank_le hK.1)

theorem two_requests_come_to_rest :
    ∃ s s', run step .init [.arrive 0 (.readLink 1 2), .test, .write, .send,
        .arrive 0 (.readLink 3 4)] = some s
      ∧ run step s [.test, .clear, .readOp, .call, .test, .write, .send, .clear, .readOp, .call]
        = some s'
      ∧ moves step s [.test, .clear, .readOp, .call, .test, .write, .send, .clear, .readOp, .call]
        ≤ 11 :=
  ⟨_, _, rfl, rfl, (comes_to_rest [.arrive 0 (.readLink 1 2), .test, .write, .send,
    .arrive 0 (.readLink 3 4)] [.test, .clear, .readOp, .call, .test, .write, .send, .clear, .readOp,
    .call] _ _ rfl (by decide) rfl).1⟩

/-! ## Records that are deleted -/

theorem mem_calls_of_mem_freed {s : State} {r : Slot} (h : r ∈ s.freed) :
    r ∈ s.calls.map Call.pArgument := by
  obtain ⟨c, hc, rfl⟩ := List.mem_map.1 h
  exact List.mem_map_of_mem (List.mem_of_mem_filter hc)

/-- The calls are in order, under the operations of their records, and a callback that is under way has
read its operation from the newest record. -/
structure Current (s : State) : Prop where
  kept : Kept s
  intact : Intact s
  matched : Matched s
  argument : ∀ a, s.loop = .named a → a = s.async.data

theorem current_init : Current .init where
  kept := kept_init
  intact := ⟨List.nil_prefix, fun hne => absurd rfl hne⟩
  matched := ⟨fun c hc => (by cases hc), fun a ha => by cases ha⟩
  argument := fun a ha => by cases ha

theorem current_step {s s' : State} {e : Event} (hC : Current s) (hno : NoOverwrite s e)
    (h : step s e = some s') : Current s' := by
  obtain ⟨hK, hI, hM, harg⟩ := hC
  have hkept : OpKept s e := by
    intro he a ha
    rw [hno he] at ha
    cases ha
  refine ⟨kept_step hK h, (intact_step_iff hK.1 h).2 ⟨hI, hno⟩,
    (matched_step_iff hK.1 hK.2.1 h).2 ⟨hM, hkept⟩, ?_⟩
  cases move_of_step h with
  | write d hw =>
    intro a ha
    have hpoll : s.loop = .polling := hno rfl
    rw [show s.loop = .named a from ha] at hpoll
    cases hpoll
  | readOp hl =>
    intro a ha
    exact (Loop.named.inj ha).symm
  | clear | call =>
    intro a ha
    cases ha
  | arrive | wait | pass | send => exact harg

/-- The record a callback takes was passed to none before. -/
theorem data_not_called {s : State} (hC : Current s) (hl : s.loop ≠ .polling) :
    s.async.data ∉ s.calls.map Call.pArgument := by
  obtain ⟨ho, hlen⟩ := hC.intact
  rw [hC.kept.1.newest _ (hlen hl), ((ordered_iff s).1 ho).1]
  simp

theorem alive_step {s s' : State} {e : Event} (hC : Current s) (h : step s e = some s') :
    Alive s e := by
  rintro rfl
  cases move_of_step h with
  | call argument op hl ho =>
    have hnew := data_not_called hC (by rw [hl]; exact Loop.noConfusion)
    have hdata : s.async.data ∉ s.freed := fun hmem => hnew (mem_calls_of_mem_freed hmem)
    refine ⟨fun a ha => ?_, hdata⟩
    rw [hl] at ha
    obtain rfl := Option.some.inj ha
    rw [hC.argument argument hl]
    exact hdata

/-- Every record is deleted by the call it is passed to, if its proxy deletes it. -/
theorem freed_of_paired {s : State} (h : Paired s) :
    s.freed = (s.calls.map Call.pArgument).filter s.deletes := by
  unfold State.freed
  rw [List.filter_map]
  congr 1
  refine List.filter_congr fun c hc => ?_
  simp [State.deletes, h c hc]

/-- All operations so far are of proxies that delete their records. -/
structure AllFree (s : State) : Prop where
  worker : ∀ op ∈ s.worker.op?, freesArguments op
  created : ∀ d ∈ s.created, freesArguments d.op
  calls : ∀ c ∈ s.calls, freesArguments c.op

theorem AllFree.freed_eq {s : State} (h : AllFree s) : s.freed = s.calls.map Call.pArgument := by
  unfold State.freed
  rw [List.filter_eq_self.2 h.calls]

theorem allFree_step {s s' : State} {e : Event} (hA : AllFree s) (he : e.Freed)
    (h : step s e = some s') : AllFree s' := by
  obtain ⟨hworker, hcreated, hcalls⟩ := hA
  cases move_of_step h with
  | arrive copy r hw =>
    refine ⟨fun op hop => ?_, hcreated, hcalls⟩
    rw [← Option.some.inj hop]
    exact he
  | wait d hw hp => exact ⟨hworker, hcreated, hcalls⟩
  | pass d hw hp =>
    rw [hw] at hworker
    exact ⟨hworker, hcreated, hcalls⟩
  | write d hw =>
    rw [hw] at hworker
    refine ⟨fun op hop => (by cases hop), fun d' hd' => ?_, hcalls⟩
    rcases List.mem_append.1 hd' with hd' | hd'
    · exact hcreated d' hd'
    · rw [List.mem_singleton.1 hd']
      exact hworker d.op rfl
  | send hw => exact ⟨fun op hop => (by cases hop), hcreated, hcalls⟩
  | clear hl hp => exact ⟨hworker, hcreated, hcalls⟩
  | readOp hl => exact ⟨hworker, hcreated, hcalls⟩
  | call argument op hl ho =>
    refine ⟨hworker, hcreated, fun c hc => ?_⟩
    rcases List.mem_append.1 hc with hc | hc
    · exact hcalls c hc
    · rw [List.mem_singleton.1 hc]
      rcases argument with _ | i
      · cases ho
      · obtain ⟨d, hd, rfl⟩ := Option.map_eq_some_iff.1 ho
        exact hcreated d (List.mem_of_getElem? hd)

/-- Where every record is deleted, a call of what is not deleted is of a record not passed before. -/
theorem nodup_step {s s' : State} {e : Event} (hA : AllFree s)
    (hnodup : (s.calls.map Call.pArgument).Nodup) (hC : Alive s e) (h : step s e = some s') :
    (s'.calls.map Call.pArgument).Nodup := by
  cases move_of_step h with
  | call argument op hl ho =>
    have hdata := (hC rfl).2
    rw [hA.freed_eq] at hdata
    simp only [List.map_append, List.map_cons, List.map_nil]
    rw [List.nodup_append]
    refine ⟨hnodup, List.nodup_singleton _, fun r hr r' hr' heq => ?_⟩
    rw [heq, List.mem_singleton.1 hr'] at hr
    exact hdata hr
  | arrive | wait | pass | write | send | clear | readOp => exact hnodup

/-- A run that never stores a record under a callback touches none that is deleted and, at rest, has
deleted all but those of `init` and `destroy`, once each. If there are none of these, a run that comes to
rest and touches no deleted record never stored one under a callback. -/
theorem deleted_once (es : List Event) (s : State) (h : run step .init es = some s) :
    (Along step NoOverwrite .init es →
        Along step Alive .init es ∧ (Quiet s → s.freed = s.records.filter s.deletes))
      ∧ (Quiet s → (∀ e ∈ es, e.Freed) → Along step Alive .init es →
        Along step NoOverwrite .init es) := by
  refine ⟨fun hno => ⟨?_, fun hquiet => ?_⟩, fun hquiet hfreed halive => ?_⟩
  · exact along_of_along (fun _ _ _ => current_step) (fun _ _ _ hI _ => alive_step hI) current_init
      hno h
  · have hC := inv_of_run (fun _ _ _ => current_step) current_init hno h
    have heq : s.calls.map Call.pArgument = s.records := ((called_once_tfae h hquiet).out 3 2).1 hno
    rw [freed_of_paired hC.matched.1, heq]
  · have hinit : AllFree .init := ⟨fun op hop => (by cases hop), fun d hd => (by cases hd),
      fun c hc => by cases hc⟩
    have hrun : AllFree s ∧ (s.calls.map Call.pArgument).Nodup :=
      inv_of_run (I := fun s => AllFree s ∧ (s.calls.map Call.pArgument).Nodup)
        (fun _ _ _ hI hC hs => ⟨allFree_step hI.1 hC.2 hs, nodup_step hI.1 hI.2 hC.1 hs⟩)
        ⟨hinit, List.nodup_nil⟩ (along_and step halive hfreed) h
    exact ((called_once_tfae h hquiet).out 1 3).1 hrun.2

/-- The record of `init` is left, the other is deleted. -/
theorem init_not_deleted :
    ∃ s, run step .init [.arrive 0 (.init 1), .test, .write, .send, .clear, .readOp, .call,
        .arrive 0 (.readLink 1 2), .test, .write, .send, .clear, .readOp, .call] = some s
      ∧ Along step Alive .init [.arrive 0 (.init 1), .test, .write, .send, .clear, .readOp, .call,
        .arrive 0 (.readLink 1 2), .test, .write, .send, .clear, .readOp, .call]
      ∧ s.freed = s.records.filter s.deletes ∧ s.freed = [.record 1] := by
  have hdeleted := (deleted_once [.arrive 0 (.init 1), .test, .write, .send, .clear, .readOp, .call,
    .arrive 0 (.readLink 1 2), .test, .write, .send, .clear, .readOp, .call] _ rfl).1 (by decide)
  exact ⟨_, rfl, hdeleted.1, hdeleted.2 ⟨rfl, rfl, rfl⟩, rfl⟩

/-- A callback that has read its operation read it from a record that is not deleted. -/
def ReadAlive (s : State) : Prop := ∀ a, s.loop = .named a → a ∉ s.freed

theorem readAlive_step {s s' : State} {e : Event} (hR : ReadAlive s) (hC : Undeleted s e)
    (h : step s e = some s') : ReadAlive s' := by
  cases move_of_step h with
  | readOp hl =>
    intro a ha
    rw [← Loop.named.inj ha]
    exact hC rfl
  | clear | call =>
    intro a ha
    cases ha
  | arrive | wait | pass | write | send => exact hR

/-- A record stored between the two reads was passed to no call. -/
theorem overtaking_not_called {s : State} (hK : Kept s) {a : Slot} (ha : s.loop = .named a)
    (hne : a ≠ s.async.data) : s.async.data ∉ s.calls.map Call.pArgument := by
  obtain ⟨hT, hknown, b, hB⟩ := hK
  have hcount := hT.count
  have htwo : b.taken.length + 2 ≤ b.put := by
    rw [hB.length, hB.put]
    rw [ha] at hcount
    rcases (hknown.argument a ha).2 with h | h | h
    · exact absurd h hne
    · simp only [Loop.taken] at hcount
      omega
    · rw [h] at hcount
      simp only [Loop.taken, Worker.stored] at hcount
      omega
  have hput := hB.put
  rw [hT.newest (b.put - 1) (by omega), hB.taken]
  intro hmem
  obtain ⟨i, hi, heq⟩ := List.mem_map.1 hmem
  rw [Slot.record.inj heq] at hi
  exact Mailbox.newest_not_mem_taken htwo hi

theorem alive_of_readAlive {s s' : State} {e : Event} (hK : Kept s) (hR : ReadAlive s)
    (h : step s e = some s') : Alive s e := by
  rintro rfl
  cases move_of_step h with
  | call argument op hl ho =>
    have hread := hR argument hl
    refine ⟨fun a ha => ?_, ?_⟩
    · rw [hl] at ha
      rw [← Option.some.inj ha]
      exact hread
    · by_cases heq : argument = s.async.data
      · exact heq ▸ hread
      · exact fun hmem => overtaking_not_called hK hl heq (mem_calls_of_mem_freed hmem)

/-- Once its call touches nothing that is deleted, a callback has found its first record undeleted. -/
theorem readAlive_of_alive {s s' : State} {e : Event} (hC : Alive s e) (h : step s e = some s')
    (hR : ReadAlive s') : ReadAlive s ∧ Undeleted s e := by
  cases move_of_step h with
  | readOp hl =>
    refine ⟨fun a ha => ?_, fun _ => hR _ rfl⟩
    rw [hl] at ha
    cases ha
  | clear hl hp =>
    refine ⟨fun a ha => ?_, nofun⟩
    rw [hl] at ha
    cases ha
  | call argument op hl ho =>
    refine ⟨fun a ha => (hC rfl).1 a ?_, nofun⟩
    rw [ha]
    rfl
  | arrive | wait | pass | write | send => exact ⟨hR, nofun⟩

/-- A run calls every record under its own operation, and touches none that is deleted, if it never
stores another operation's record between the two reads and every callback finds a record in `data`
that is not deleted; and a run that has come back from its callbacks did so only then. -/
theorem operation_paired_iff (es : List Event) (s : State) (h : run step .init es = some s) :
    (Along step (fun s e => OpKept s e ∧ Undeleted s e) .init es →
        Paired s ∧ Along step Alive .init es)
      ∧ (s.loop = .polling → Paired s → Along step Alive .init es →
        Along step (fun s e => OpKept s e ∧ Undeleted s e) .init es) := by
  have hgood := good_iff_along (I := fun s => Tally s ∧ Known s) (G := Matched) (C := OpKept)
    (fun _ _ _ hI hs => ⟨tally_step hI.1 hs, known_step hI.1 hI.2 hs⟩)
    (fun _ _ _ hI hs => matched_step_iff hI.1 hI.2 hs) ⟨tally_init, known_init⟩ h
  simp only [along_and_iff]
  refine ⟨fun hC => ⟨(hgood.2 ⟨matched_init, hC.1⟩).1, ?_⟩, fun hl hp halive => ⟨?_, ?_⟩⟩
  · exact along_of_along (I := fun s => Kept s ∧ ReadAlive s)
      (fun _ _ _ hI hC hs => ⟨kept_step hI.1 hs, readAlive_step hI.2 hC hs⟩)
      (fun _ _ _ hI _ hs => alive_of_readAlive hI.1 hI.2 hs)
      ⟨kept_init, fun a ha => by cases ha⟩ hC.2 h
  · refine (hgood.1 ⟨hp, fun a ha => ?_⟩).2
    rw [hl] at ha
    cases ha
  · refine (along_of_last (I := fun _ => True) (G := ReadAlive) (fun _ _ _ _ _ => trivial)
      (fun _ _ _ _ hC hs => readAlive_of_alive hC hs) trivial halive h fun a ha => ?_).2
    rw [hl] at ha
    cases ha

/-- A request stored between the two reads does no harm when it is of the same operation. -/
theorem same_operation_paired :
    ∃ s, run step .init [.arrive 0 (.readLink 1 2), .test, .write, .send, .clear, .readOp,
        .arrive 0 (.readLink 3 4), .test, .write, .call] = some s
      ∧ s.calls = [⟨"ReadLink", .record 1⟩] ∧ Paired s :=
  ⟨_, rfl, rfl, ((operation_paired_iff [.arrive 0 (.readLink 1 2), .test, .write, .send, .clear,
    .readOp, .arrive 0 (.readLink 3 4), .test, .write, .call] _ rfl).1 (by decide)).1⟩

/-- `Proxy::ReadLink` is called on the arguments of `FileSystem::GetAttr`. -/
theorem readLink_called_on_getAttr :
    ∃ s, run step .init [.arrive 0 (.readLink 1 2), .test, .write, .send, .clear, .readOp,
        .arrive 0 (.getAttr 3 4 5), .test, .write, .call] = some s
      ∧ s.calls = [⟨"ReadLink", .record 1⟩] ∧ s.opOf (.record 1) = some "GetAttr" ∧ ¬ Paired s :=
  ⟨_, rfl, rfl, rfl, by decide⟩

end NodeFuse.Handoff
