import NodeFuse.Handoff
import NodeFuse.Lib.Fifo

/-!
# What the parties hand over

Every record is either called, or pending, or about to be sent, or taken by the callback under way
(`Tally.count`), and `data` is the newest one. While no callback is overtaken by a store, the record
taken is the newest, so the parties follow a lossless channel (`refines_fifo`); a store that overtakes
one loses it for good (`intact_step_iff`).
-/

namespace NodeFuse.Handoff

open Runs

/-- What a step does and when it can happen. -/
inductive Move (s : State) : Event → State → Prop
  | arrive (copy : VoidPtr) (r : Request) (hw : s.worker = .idle) :
    Move s (.arrive copy r) { s with worker := .waiting (FileSystem.serve copy r) }
  | wait (d : ThreadFunData) (hw : s.worker = .waiting d) (hp : s.async.pending = 1) :
    Move s .test s
  | pass (d : ThreadFunData) (hw : s.worker = .waiting d) (hp : s.async.pending ≠ 1) :
    Move s .test { s with worker := .writing d }
  | write (d : ThreadFunData) (hw : s.worker = .writing d) :
    Move s .write { s with
      async := { s.async with data := .record s.created.length }
      created := s.created ++ [d]
      worker := .sending }
  | send (hw : s.worker = .sending) :
    Move s .send { s with async := s.async.send, worker := .idle, sends := s.sends + 1 }
  | clear (hl : s.loop = .polling) (hp : s.async.pending = 1) :
    Move s .clear { s with
      async := { s.async with pending := 0 }
      loop := .cleared
      callbacks := s.callbacks + 1 }
  | readOp (hl : s.loop = .cleared) : Move s .readOp { s with loop := .named s.async.data }
  | call (argument : Slot) (op : String) (hl : s.loop = .named argument)
      (ho : s.opOf argument = some op) :
    Move s .call { s with calls := s.calls ++ [⟨op, s.async.data⟩], loop := .polling }

theorem move_of_step {s s' : State} {e : Event} (h : step s e = some s') : Move s e s' := by
  cases e with
  | arrive copy r =>
    obtain ⟨hw, ⟨⟩⟩ := Option.ite_none_right_eq_some.1 h
    exact .arrive copy r hw
  | test =>
    simp only [step] at h
    split at h
    · next d hw =>
      rw [Option.some.injEq] at h
      split_ifs at h with hp
      · exact h ▸ .wait d hw hp
      · exact h ▸ .pass d hw hp
    · cases h
  | write =>
    simp only [step] at h
    split at h
    · next d hw =>
      obtain rfl := Option.some.inj h
      exact .write d hw
    · cases h
  | send =>
    obtain ⟨hw, ⟨⟩⟩ := Option.ite_none_right_eq_some.1 h
    exact .send hw
  | clear =>
    obtain ⟨⟨hl, hp⟩, ⟨⟩⟩ := Option.ite_none_right_eq_some.1 h
    exact .clear hl hp
  | readOp =>
    obtain ⟨hl, ⟨⟩⟩ := Option.ite_none_right_eq_some.1 h
    exact .readOp hl
  | call =>
    simp only [step] at h
    split at h
    · next argument hl =>
      obtain ⟨op, ho, rfl⟩ := Option.map_eq_some_iff.1 h
      exact .call argument op hl ho
    · cases h

def Worker.stored : Worker → ℕ
  | .sending => 1
  | _ => 0

def Loop.taken : Loop → ℕ
  | .polling => 0
  | _ => 1

/-- Where each record is, and that the worker stores and sends only while none is pending. -/
structure Tally (s : State) : Prop where
  count : s.created.length
    = s.calls.length + s.async.pending + s.worker.stored + s.loop.taken
  pending_le : s.async.pending ≤ 1
  writing : ∀ d, s.worker = .writing d → s.async.pending = 0
  sending : s.worker = .sending → s.async.pending = 0
  newest : ∀ n, s.created.length = n + 1 → s.async.data = .record n

theorem tally_init : Tally .init := by
  refine ⟨rfl, by decide, ?_, fun _ => rfl, ?_⟩
  · intro d h
    cases h
  · intro n h
    cases h

theorem tally_step {s s' : State} {e : Event} (hT : Tally s) (h : step s e = some s') :
    Tally s' := by
  obtain ⟨hcount, hle, hwriting, hsending, hnewest⟩ := hT
  cases move_of_step h with
  | arrive copy r hw =>
    rw [hw] at hcount
    exact ⟨hcount, hle, by simp, by simp, hnewest⟩
  | wait d hw hp => exact ⟨hcount, hle, hwriting, hsending, hnewest⟩
  | pass d hw hp =>
    rw [hw] at hcount
    exact ⟨hcount, hle, fun _ _ => by simp only; omega, by simp, hnewest⟩
  | write d hw =>
    have hp := hwriting d hw
    rw [hw] at hcount
    refine ⟨?_, hle, by simp, fun _ => hp, ?_⟩
    · simp only [List.length_append, List.length_singleton, Worker.stored] at hcount ⊢
      omega
    · intro n hn
      simp only [List.length_append, List.length_singleton, Nat.add_right_cancel_iff] at hn
      exact congrArg Slot.record hn
  | send hw =>
    have hp := hsending hw
    rw [hw] at hcount
    refine ⟨?_, le_rfl, by simp, by simp, hnewest⟩
    simp only [Async.send, Worker.stored] at hcount ⊢
    omega
  | clear hl hp =>
    rw [hl] at hcount
    refine ⟨?_, Nat.zero_le _, fun _ _ => rfl, fun _ => rfl, hnewest⟩
    simp only [Loop.taken] at hcount ⊢
    omega
  | readOp hl =>
    rw [hl] at hcount
    exact ⟨hcount, hle, hwriting, hsending, hnewest⟩
  | call argument op hl ho =>
    rw [hl] at hcount
    refine ⟨?_, hle, hwriting, hsending, hnewest⟩
    simp only [List.length_append, List.length_singleton, Loop.taken] at hcount ⊢
    omega

/-! ## Records in order -/

/-- The calls are in order, and the callback under way has the newest record. -/
def Intact (s : State) : Prop :=
  Ordered s ∧ (s.loop ≠ .polling → s.created.length = s.calls.length + 1)

theorem ordered_iff (s : State) : Ordered s ↔
    s.calls.map Call.pArgument = (List.range s.calls.length).map Slot.record
      ∧ s.calls.length ≤ s.created.length := by
  have htake : ∀ n m : ℕ, n ≤ m → (List.range m).take n = List.range n := by
    intro n m h
    rw [List.take_range, min_eq_left h]
  unfold Ordered State.records
  refine ⟨fun h => ?_, fun h => ?_⟩
  · have hle := h.length_le
    simp only [List.length_map, List.length_range] at hle
    refine ⟨?_, hle⟩
    have heq := List.prefix_iff_eq_take.1 h
    rw [List.length_map, ← List.map_take, htake _ _ hle] at heq
    exact heq
  · obtain ⟨heq, hle⟩ := h
    rw [heq, ← htake _ _ hle, List.map_take]
    exact List.take_prefix _ _

/-- A call keeps the order exactly when it passes the first record not passed yet. -/
theorem ordered_call {s : State} {c : Call} (hle : s.calls.length < s.created.length) (l : Loop) :
    Ordered { s with calls := s.calls ++ [c], loop := l }
      ↔ Ordered s ∧ c.pArgument = .record s.calls.length := by
  rw [ordered_iff, ordered_iff]
  simp only [List.map_append, List.map_cons, List.map_nil, List.length_append,
    List.length_singleton, List.range_succ]
  refine ⟨fun h => ?_, fun h => ?_⟩
  · obtain ⟨h, -⟩ := h
    obtain ⟨h1, h2⟩ := List.append_inj' h rfl
    exact ⟨⟨h1, hle.le⟩, List.singleton_inj.1 h2⟩
  · obtain ⟨⟨h1, -⟩, h2⟩ := h
    exact ⟨by rw [h1, h2], hle⟩

theorem ordered_write {s : State} (hle : s.calls.length ≤ s.created.length) (d : ThreadFunData)
    (a : Async) (w : Worker) :
    Ordered { s with async := a, created := s.created ++ [d], worker := w } ↔ Ordered s := by
  rw [ordered_iff, ordered_iff]
  simp only [List.length_append, List.length_singleton]
  refine ⟨fun h => ?_, fun h => ?_⟩
  · obtain ⟨h, -⟩ := h
    exact ⟨h, hle⟩
  · obtain ⟨h, -⟩ := h
    exact ⟨h, by omega⟩

/-- A step keeps the records in order exactly when it does not overtake a callback. -/
theorem intact_step_iff {s s' : State} {e : Event} (hT : Tally s) (h : step s e = some s') :
    Intact s' ↔ Intact s ∧ NoOverwrite s e := by
  have hcount := hT.count
  unfold Intact NoOverwrite
  cases move_of_step h with
  | arrive copy r hw => simp [Ordered, State.records]
  | wait d hw hp => simp
  | pass d hw hp => simp [Ordered, State.records]
  | write d hw =>
    have hp := hT.writing d hw
    rw [hw, hp] at hcount
    rw [ordered_write (by omega)]
    simp only [List.length_append, List.length_singleton, Worker.stored, forall_const] at hcount ⊢
    refine ⟨fun h => ?_, fun h => ?_⟩
    · obtain ⟨ho, hl⟩ := h
      -- a callback under way would be one record behind
      have hpoll : s.loop = .polling := by
        by_contra hne
        have := hl hne
        cases hloop : s.loop with
        | polling => exact hne hloop
        | cleared => rw [hloop] at hcount; simp only [Loop.taken] at hcount; omega
        | named a => rw [hloop] at hcount; simp only [Loop.taken] at hcount; omega
      exact ⟨⟨ho, fun hne => absurd hpoll hne⟩, hpoll⟩
    · obtain ⟨⟨ho, -⟩, hpoll⟩ := h
      exact ⟨ho, fun hne => absurd hpoll hne⟩
  | send hw => simp [Ordered, State.records]
  | clear hl hp =>
    have hsending : s.worker ≠ .sending := fun hw => by have := hT.sending hw; omega
    have hstored : s.worker.stored = 0 := by
      cases hworker : s.worker with
      | sending => exact absurd hworker hsending
      | _ => rfl
    rw [hl, hp, hstored] at hcount
    simp only [Ordered, State.records, hl, ne_eq, reduceCtorEq, not_false_eq_true, forall_const,
      not_true_eq_false, IsEmpty.forall_iff, and_true]
    refine ⟨fun h => h.1, fun h => ⟨h, ?_⟩⟩
    simpa [Loop.taken] using hcount
  | readOp hl => simp [Ordered, State.records, hl]
  | call argument op hl ho =>
    rw [hl] at hcount
    simp only [Loop.taken] at hcount
    rw [ordered_call (by omega), hl]
    simp only [ne_eq, reduceCtorEq, not_true_eq_false, not_false_eq_true, IsEmpty.forall_iff,
      and_true, forall_const]
    obtain ⟨n, hn⟩ : ∃ n, s.created.length = n + 1 := ⟨_, by rw [hcount]⟩
    rw [hT.newest n hn, Slot.record.injEq, hn, Nat.add_right_cancel_iff]

/-- The channel a state stands for: sent on by the stores, received from by the calls. -/
def Channel (s : State) (c : Fifo Slot) : Prop :=
  Tally s ∧ Intact s ∧ c.sent = s.records ∧ c.received = s.calls.map Call.pArgument

/-- The record a callback is under way for is all that waits in the channel. -/
theorem channel_queue {s : State} {c : Fifo Slot} (h : Channel s c) (hl : s.loop ≠ .polling) :
    c.queue = [s.async.data] := by
  obtain ⟨hT, ⟨ho, hlen⟩, hs, hr⟩ := h
  have hn := hlen hl
  have hq := c.ordered
  rw [hs, hr, ((ordered_iff s).1 ho).1] at hq
  unfold State.records at hq
  rw [hn, List.range_succ, List.map_append] at hq
  rw [hT.newest _ hn]
  exact (List.append_cancel_left hq).symm

/-- While no callback is overtaken, the parties follow a lossless channel. -/
theorem refines_fifo : Simulates step Fifo.step Channel NoOverwrite := by
  rintro s e s' c hR hC h
  have hT' := tally_step hR.1 h
  have hI' := (intact_step_iff hR.1 h).2 ⟨hR.2.1, hC⟩
  obtain ⟨hs, hr⟩ := hR.2.2
  cases move_of_step h with
  | write d hw =>
    refine ⟨[.send (.record s.created.length)], _, rfl, hT', hI', ?_, hr⟩
    unfold State.records
    rw [Fifo.send_sent, hs, List.length_append, List.length_singleton, List.range_succ,
      List.map_append]
    rfl
  | call argument op hl ho =>
    have hq := channel_queue hR (by rw [hl]; exact Loop.noConfusion)
    obtain ⟨c', hc', -, hr', hs'⟩ := Fifo.receive_of_queue hq
    refine ⟨[.receive], c', ?_, hT', hI', hs'.trans hs, ?_⟩
    · rw [run_cons]
      exact ⟨c', by rw [Fifo.step, hc']; rfl, rfl⟩
    · rw [hr', hr, List.map_append]
      rfl
  | arrive | wait | pass | send | clear | readOp => exact ⟨[], c, rfl, hT', hI', hs, hr⟩

theorem channel_init : Channel .init .empty := by
  refine ⟨tally_init, ⟨List.nil_prefix, fun h => absurd rfl h⟩, rfl, rfl⟩

/-- A run that never stores a record under a callback hands every record over in order, and a run
that has come back from its callbacks with the records in order never did. -/
theorem handed_over_in_order_iff (es : List Event) (s : State)
    (h : run step .init es = some s) :
    (Along step NoOverwrite .init es → Ordered s)
      ∧ (s.loop = .polling → Ordered s → Along step NoOverwrite .init es) := by
  refine ⟨fun hC => ?_, fun hl ho => ?_⟩
  · obtain ⟨-, c, -, -, -, hs, hr⟩ := refines_fifo.run channel_init hC h
    have hprefix := c.received_prefix
    rw [hs, hr] at hprefix
    exact hprefix
  · have hI : Intact s := ⟨ho, fun hne => absurd hl hne⟩
    exact ((good_iff_along (fun _ _ _ => tally_step) (fun _ _ _ => intact_step_iff) tally_init
      h).1 hI).2

theorem one_request_handed_over :
    ∃ s, run step .init [.arrive 0 (.readLink 1 2), .test, .write, .send, .clear, .readOp, .call]
        = some s ∧ s.calls = [⟨"ReadLink", .record 0⟩] ∧ Ordered s :=
  ⟨_, rfl, rfl, (handed_over_in_order_iff
    [.arrive 0 (.readLink 1 2), .test, .write, .send, .clear, .readOp, .call] _ rfl).1 (by decide)⟩

/-- The second request is stored after `pending` is cleared for the first and before the callback
reads `data`, so the first is never called. -/
theorem first_request_lost :
    ∃ s, run step .init [.arrive 0 (.readLink 1 2), .test, .write, .send, .clear,
        .arrive 0 (.readLink 3 4), .test, .write, .readOp, .call] = some s
      ∧ s.calls = [⟨"ReadLink", .record 1⟩] ∧ ¬ Ordered s :=
  ⟨_, rfl, rfl, by decide⟩

/-! ## Operation and record -/

/-- The records that were read exist, and the one a callback read first is still in `data`, unless
the worker stored the next one since. -/
structure Known (s : State) : Prop where
  calls : ∀ c ∈ s.calls, (s.opOf c.pArgument).isSome
  argument : ∀ a, s.loop = .named a → (s.opOf a).isSome
    ∧ (a = s.async.data ∨ s.async.pending = 1 ∨ s.worker = .sending)

/-- With nothing pending and nothing stored, `data` is still what the callback read. -/
theorem argument_eq_data {s : State} (hK : Known s) {a : Slot} (ha : s.loop = .named a)
    (hp : s.async.pending ≠ 1) (hw : s.worker ≠ .sending) : a = s.async.data := by
  rcases (hK.argument a ha).2 with h | h | h
  · exact h
  · exact absurd h hp
  · exact absurd h hw

theorem opOf_data {s : State} (hT : Tally s) (hl : s.loop ≠ .polling) :
    (s.opOf s.async.data).isSome := by
  have htaken : s.loop.taken = 1 := by
    cases hloop : s.loop with
    | polling => exact absurd hloop hl
    | _ => rfl
  have hcount := hT.count
  obtain ⟨n, hn⟩ : ∃ n, s.created.length = n + 1 := ⟨s.created.length - 1, by omega⟩
  rw [hT.newest n hn, State.opOf, Option.isSome_map, List.getElem?_eq_getElem (by omega)]
  rfl

theorem opOf_write {s : State} {a : Slot} (h : (s.opOf a).isSome) (d : ThreadFunData) (x : Async)
    (w : Worker) :
    State.opOf { s with async := x, created := s.created ++ [d], worker := w } a = s.opOf a := by
  cases a with
  | baton => rfl
  | record i =>
    have hi : i < s.created.length := by simpa [State.opOf] using h
    simp only [State.opOf]
    rw [List.getElem?_append_left hi]

theorem known_step {s s' : State} {e : Event} (hT : Tally s) (hK : Known s)
    (h : step s e = some s') : Known s' := by
  have hcalls := hK.calls
  have hargument := hK.argument
  cases move_of_step h with
  | arrive copy r hw =>
    refine ⟨hcalls, fun a ha => ⟨(hargument a ha).1, ?_⟩⟩
    rcases (hargument a ha).2 with h1 | h1 | h1
    · exact .inl h1
    · exact .inr (.inl h1)
    · rw [hw] at h1
      cases h1
  | wait d hw hp => exact ⟨hcalls, hargument⟩
  | pass d hw hp =>
    have hsending : s.worker ≠ .sending := by rw [hw]; exact Worker.noConfusion
    exact ⟨hcalls, fun a ha => ⟨(hargument a ha).1, .inl (argument_eq_data hK ha hp hsending)⟩⟩
  | write d hw =>
    refine ⟨fun c hc => ?_, fun a ha => ⟨?_, .inr (.inr rfl)⟩⟩
    · rw [opOf_write (hcalls c hc)]
      exact hcalls c hc
    · have ha' := (hargument a ha).1
      rw [opOf_write ha']
      exact ha'
  | send hw =>
    exact ⟨hcalls, fun a ha => ⟨(hargument a ha).1, .inr (.inl rfl)⟩⟩
  | clear hl hp =>
    refine ⟨hcalls, fun a ha => ?_⟩
    cases ha
  | readOp hl =>
    have hdata := opOf_data hT (by rw [hl]; exact Loop.noConfusion)
    refine ⟨hcalls, fun a ha => ?_⟩
    cases ha
    exact ⟨hdata, .inl rfl⟩
  | call argument op hl ho =>
    have hdata := opOf_data hT (by rw [hl]; exact Loop.noConfusion)
    refine ⟨fun c hc => ?_, fun a ha => by cases ha⟩
    rcases List.mem_append.1 hc with hc | hc
    · exact hcalls c hc
    · rw [List.mem_singleton.1 hc]
      exact hdata

/-- The calls are paired, and the callback under way will be. -/
def Matched (s : State) : Prop :=
  Paired s ∧ ∀ a, s.loop = .named a → s.opOf a = s.opOf s.async.data

theorem paired_write {s : State} (hK : Known s) (d : ThreadFunData) (x : Async) (w : Worker) :
    Paired { s with async := x, created := s.created ++ [d], worker := w } ↔ Paired s := by
  unfold Paired
  refine forall₂_congr fun c hc => ?_
  rw [opOf_write (hK.calls c hc)]

/-- A step keeps operations and records paired exactly when it keeps the operation a callback has
read. -/
theorem matched_step_iff {s s' : State} {e : Event} (hT : Tally s) (hK : Known s)
    (h : step s e = some s') : Matched s' ↔ Matched s ∧ OpKept s e := by
  unfold Matched OpKept
  cases move_of_step h with
  | arrive copy r hw => simp [Paired, State.opOf]
  | wait d hw hp => simp
  | pass d hw hp => simp [Paired, State.opOf]
  | write d hw =>
    have hpending : s.async.pending ≠ 1 := by rw [hT.writing d hw]; exact Nat.zero_ne_one
    have hsending : s.worker ≠ .sending := by rw [hw]; exact Worker.noConfusion
    have hdata : ∀ a, s.loop = .named a → a = s.async.data :=
      fun a ha => argument_eq_data hK ha hpending hsending
    have hnew : State.opOf { s with
        async := { s.async with data := .record s.created.length }
        created := s.created ++ [d]
        worker := .sending } (.record s.created.length) = some d.op := by
      simp [State.opOf]
    rw [paired_write hK]
    simp only [hnew]
    refine ⟨fun h => ?_, fun h => ?_⟩
    · obtain ⟨hpaired, hnamed⟩ := h
      refine ⟨⟨hpaired, fun a ha => congrArg s.opOf (hdata a ha)⟩, fun _ a ha => ?_⟩
      have hloop : s.loop = .named a := by
        cases hl : s.loop <;> rw [hl] at ha <;> cases ha
        rfl
      rw [← opOf_write (hK.argument a hloop).1, hnamed a hloop, hw]
      rfl
    · obtain ⟨⟨hpaired, -⟩, hkept⟩ := h
      refine ⟨hpaired, fun a ha => ?_⟩
      have := hkept trivial a (by rw [ha]; rfl)
      rw [opOf_write (hK.argument a ha).1, this, hw]
      rfl
  | send hw => simp [Paired, State.opOf, Async.send]
  | clear hl hp => simp [Paired, State.opOf, hl]
  | readOp hl => simp [Paired, State.opOf, hl]
  | call argument op hl ho =>
    have hpaired : Paired { s with calls := s.calls ++ [⟨op, s.async.data⟩], loop := .polling }
        ↔ Paired s ∧ s.opOf s.async.data = some op := by
      unfold Paired
      rw [List.forall_mem_append, List.forall_mem_singleton]
      rfl
    rw [hpaired]
    simp only [reduceCtorEq, IsEmpty.forall_iff, implies_true, and_true, hl, Loop.named.injEq,
      forall_eq', ho, eq_comm]

theorem known_init : Known .init := by
  refine ⟨fun c hc => ?_, fun a ha => by cases ha⟩
  cases hc

theorem matched_init : Matched .init := by
  refine ⟨fun c hc => ?_, fun a ha => by cases ha⟩
  cases hc

/-- What a wake-up is sent for, and how many callbacks the sends have brought about. -/
def Woken (s : State) : Prop := Tally s ∧ s.callbacks + s.async.pending = s.sends

theorem notMerged_step {s s' : State} {e : Event} (hT : Tally s) (h : step s e = some s') :
    NotMerged s e := by
  rintro rfl
  cases move_of_step h with
  | send hw =>
    rw [hT.sending hw]
    exact Nat.zero_ne_one

theorem woken_step {s s' : State} {e : Event} (hW : Woken s) (h : step s e = some s') :
    Woken s' := by
  obtain ⟨hT, hcount⟩ := hW
  refine ⟨tally_step hT h, ?_⟩
  cases move_of_step h with
  | send hw =>
    have hp := hT.sending hw
    simp only [Async.send]
    omega
  | clear hl hp =>
    simp only
    omega
  | arrive | wait | pass | write | readOp | call => exact hcount

/-- Every callback has called the proxy, but for the one that is under way. -/
theorem callbacks_eq {es : List Event} {s : State} (h : run step .init es = some s) :
    s.callbacks = s.calls.length + s.loop.taken := by
  refine inv_of_any_run (I := fun s => s.callbacks = s.calls.length + s.loop.taken) ?_ rfl h
  intro s e s' hcount h
  cases move_of_step h with
  | clear hl hp =>
    rw [hl] at hcount
    simp only [Loop.taken] at hcount ⊢
    omega
  | readOp hl =>
    rw [hl] at hcount
    exact hcount
  | call argument op hl ho =>
    rw [hl] at hcount
    simp only [List.length_append, List.length_singleton, Loop.taken] at hcount ⊢
    omega
  | arrive | wait | pass | write | send => exact hcount

/-- No send is merged with one before it, and every send has brought about a callback or is
pending. -/
theorem every_send_calls_back (es : List Event) (s : State) (h : run step .init es = some s) :
    Along step NotMerged .init es ∧ s.callbacks + s.async.pending = s.sends := by
  have hinit : Woken .init := ⟨tally_init, rfl⟩
  refine ⟨along_of_inv (fun _ _ _ => tally_step) (fun _ _ _ => notMerged_step) tally_init h, ?_⟩
  exact (inv_of_any_run (fun _ _ _ => woken_step) hinit h).2

theorem two_sends_call_back :
    ∃ s, run step .init [.arrive 0 (.readLink 1 2), .test, .write, .send, .arrive 0 (.readLink 3 4),
        .test, .clear, .test, .write, .send] = some s ∧ s.sends = 2 ∧ s.callbacks = 1
      ∧ s.callbacks + s.async.pending = s.sends :=
  ⟨_, rfl, rfl, rfl, (every_send_calls_back [.arrive 0 (.readLink 1 2), .test, .write, .send,
    .arrive 0 (.readLink 3 4), .test, .clear, .test, .write, .send] _ rfl).2⟩

end NodeFuse.Handoff
