import NodeFuse.Receive
import NodeFuse.Proofs.RoundTrips
import NodeFuse.Proofs.XAttr

/-!
# When a request's payload survives

A record leads its method back to the payload exactly when the memory still shows what the request
borrows (`survived_iff`). Only a request that is received changes the memory, so the payloads survive
in every order of callbacks exactly when no receive disturbs a record that waits.
-/

namespace NodeFuse

section Plain

theorem nodeUnixtimeV8_eq_iff {t ns : Int64} :
    nodeUnixtimeV8 t.toInt = .date (.fin (millis t ns)) ↔ |t.toInt| ≤ 8640000000000 ∧ ns = 0 := by
  refine ⟨fun h => ?_, fun h => ?_⟩
  · simp only [nodeUnixtimeV8] at h
    split_ifs at h with hdate
    · have hms := Num.fin.inj (Value.date.inj h)
      -- what is rounded to a date is a date
      have hround : Double.round (1000 * Double.round t.toInt) = 1000 * Double.round t.toInt :=
        Double.round_of_natAbs_lt (by omega)
      rw [hround] at hdate hms
      have hself : Double.round t.toInt = t.toInt := Double.round_of_natAbs_lt (by omega)
      rw [hself] at hdate hms
      have hns : ns.toInt = 0 := by
        unfold millis at hms
        push_cast at hms
        have hzero : (ns.toInt : ℚ) = 0 := by linarith
        exact_mod_cast hzero
      exact ⟨abs_le.2 (by omega), Int64.toInt_inj.1 hns⟩
    · cases h
  · rw [nodeUnixtimeV8_of_le h.1, h.2, millis, show Int64.toInt 0 = 0 from rfl]
    norm_num

theorem SetAttr.value_eq_sent_iff (st : Stat) (a : SetAttr) :
    a.value st = a.sent st ↔ a.Plain st := by
  have hshort : ∀ n : UInt32, Value.int (Integer.new n.toNat) = .int n.toNat
      ↔ n.toNat < 2 ^ 31 := by
    intro n
    rw [int_inj, Integer.new_eq_iff]
    omega
  cases a with
  | mode => exact hshort st.mode
  | uid => exact hshort st.uid
  | gid => exact hshort st.gid
  | size => exact int_inj
  | atime => exact nodeUnixtimeV8_eq_iff
  | mtime => exact nodeUnixtimeV8_eq_iff

/-- The object a `setattr` is passed has the attributes sent exactly when each of them is plain. -/
theorem getAttrsToBeSet_eq_sent_iff (toSet : Int32) (st : Stat) :
    getAttrsToBeSet toSet st = .object (SetAttr.all.flatMap fun a =>
        if toSet &&& a.flag ≠ 0 then [(a.key, a.sent st)] else [])
      ↔ ∀ a : SetAttr, toSet &&& a.flag ≠ 0 → a.Plain st := by
  rw [getAttrsToBeSet_eq, Value.object.injEq,
    selected_eq_iff SetAttr.key _ _ _ SetAttr.key_injective]
  refine ⟨fun h a ha => ?_, fun h a _ ha => ?_⟩
  · exact (a.value_eq_sent_iff st).1 (h a a.mem_all ha)
  · exact (a.value_eq_sent_iff st).2 (h a ha)

namespace Cell

variable {σ : Type*} (decode : List UInt8 → σ)

/-- What the proxies make of a cell is what was sent, told from anything else, exactly when the cell is
plain. -/
theorem read_eq_sent_iff (m : Mem) (c : Cell) :
    c.read m = c.sent m ∧ Told decode (c.sent m) ↔ c.Plain decode m := by
  cases c with
  | str p => exact and_iff_right rfl
  | value p size =>
    refine and_congr_left fun _ => ?_
    have hsplit := (List.take_append_drop size.toNat (m.chars p)).symm
    simp only [read, sent, Mem.stringNew, Mem.cstr, Value.string.injEq]
    conv_lhs => lhs; rw [hsplit]
    rw [cstring_append_eq_iff, List.head?_drop]
  | bytes p size => exact iff_of_true ⟨rfl, trivial⟩ trivial
  | fileInfo p => exact iff_of_true ⟨rfl, trivial⟩ trivial
  | attrs toSet p =>
    exact (and_iff_left trivial).trans (getAttrsToBeSet_eq_sent_iff toSet (m.stat p))
  | lock p =>
    have htype := (m.flock p).type.le_toInt
    have htype' := (m.flock p).type.toInt_lt
    have hwhence := (m.flock p).whence.le_toInt
    have hwhence' := (m.flock p).whence.toInt_lt
    have hpid := (m.flock p).pid.le_toInt
    have hpid' := (m.flock p).pid.toInt_lt
    simp only [read, sent, flockToObject, Told, and_true, Value.object.injEq, List.cons.injEq,
      Prod.mk.injEq, true_and, int_inj, Integer.new_eq_iff, Plain]
    omega

end Cell

end Plain

end NodeFuse

namespace NodeFuse.Receive

open Runs

variable (S : Session)

theorem cstr_hold (m : Mem) (a : VoidPtr) (l : List UInt8) :
    (m.hold (some (a, cstring l ++ [0]))).cstr a = cstring l := by
  have h : (m.hold (some (a, cstring l ++ [0]))).chars a = cstring l ++ [0] := if_pos rfl
  unfold Mem.cstr
  rw [h, cstring_takeWhile]

/-- The method finds the payload where `fuse.js` says it is, as the memory has it. -/
theorem argv_payload (m : Mem) (r : Request) :
    ∀ x ∈ r.payload, (r.invocation S m).argv[x.1]? = some (x.2.read m) := by
  cases r <;> simp only [Request.payload, List.forall_mem_cons, List.not_mem_nil,
    IsEmpty.forall_iff, implies_true, and_true] <;> and_intros <;> rfl

theorem given_iff_of_argv (m image : Mem) (r : Request) :
    (∀ x ∈ r.payload, (r.invocation S m).argv[x.1]? = some (x.2.sent image))
      ↔ ∀ x ∈ r.payload, x.2.read m = x.2.sent image := by
  refine forall₂_congr fun x hx => ?_
  rw [argv_payload S m r x hx, Option.some.injEq]

/-- What the method is given for a record is what was sent exactly when the borrowed part of it is. -/
theorem given_iff (m image : Mem) (copy : VoidPtr) (r : Request) :
    (∀ x ∈ r.payload, ((r.forwarded copy).invocation S
        (m.hold (FileSystem.block copy image r))).argv[x.1]? = some (x.2.sent image))
      ↔ ∀ x ∈ r.borrowed, x.2.read m = x.2.sent image := by
  cases r with
  | lookup req parent name =>
    -- the method gets the copy, whatever became of libfuse's memory
    refine iff_of_true ?_ ?_
    · intro x hx
      rw [List.mem_singleton.1 hx]
      exact congrArg (fun s => some (Value.string s)) (cstr_hold m copy (image.chars name))
    · intro x hx
      cases hx
  | _ => exact given_iff_of_argv S m image _

/-- The record and the block of a request were made by its operation, from the memory the request
was received in. -/
def Genuine (p : Posted) : Prop :=
  ∃ copy, p.record = FileSystem.serve copy p.sent.request
    ∧ p.block = FileSystem.block copy p.sent.image p.sent.request

variable {σ : Type*} (decode : List UInt8 → σ)

theorem survived_iff {p : Posted} (hp : Genuine p) (m : Mem) :
    Survived decode (p.sent, Proxy.invocations S (m.hold p.block) p.record)
      ↔ (∀ x ∈ p.sent.request.borrowed, x.2.read m = x.2.sent p.sent.image)
        ∧ ∀ x ∈ p.sent.request.payload, Cell.Told decode (x.2.sent p.sent.image) := by
  obtain ⟨copy, hrecord, hblock⟩ := hp
  unfold Survived
  simp only [hrecord, hblock]
  rw [invocations_serve, ← given_iff S m p.sent.image copy, ← forall₂_and]
  refine ⟨fun h => ?_, fun h => ?_⟩
  · obtain ⟨i, hi, h⟩ := h
    rw [List.singleton_inj.1 hi]
    exact h
  · exact ⟨_, rfl, h⟩

/-- All that a request holds is passed without a loss exactly when its borrowed part reads as it was sent,
and all of it is told from anything else. -/
theorem plain_iff (image : Mem) (r : Request) :
    (∀ x ∈ r.payload, x.2.Plain decode image)
      ↔ (∀ x ∈ r.borrowed, x.2.read image = x.2.sent image)
        ∧ ∀ x ∈ r.payload, Cell.Told decode (x.2.sent image) := by
  have hall : ∀ l : List (ℕ × Cell), (∀ x ∈ l, x.2.Plain decode image)
      ↔ (∀ x ∈ l, x.2.read image = x.2.sent image) ∧ ∀ x ∈ l, Cell.Told decode (x.2.sent image) := by
    intro l
    rw [← forall₂_and]
    exact forall₂_congr fun x _ => (x.2.read_eq_sent_iff decode image).symm
  cases r with
  | lookup req parent name =>
    rw [hall]
    refine and_congr_left fun _ => iff_of_true ?_ ?_
    · intro x hx
      rw [List.mem_singleton.1 hx]
      rfl
    · intro x hx
      cases hx
  | _ => exact hall _

/-- What was received without a loss is handed over as it was sent exactly when the memory still shows
it. -/
theorem survived_iff_of_plain {p : Posted} (hp : Genuine p)
    (hplain : ∀ x ∈ p.sent.request.payload, x.2.Plain decode p.sent.image) (m : Mem) :
    Survived decode (p.sent, Proxy.invocations S (m.hold p.block) p.record) ↔ Kept m p := by
  obtain ⟨hread, htold⟩ := (plain_iff decode p.sent.image p.sent.request).1 hplain
  rw [survived_iff S decode hp, and_iff_left htold]
  unfold Kept
  refine forall₂_congr fun x hx => ?_
  rw [hread x hx]

/-- The memory is as the worker's request came, and the records that wait are genuine. -/
structure Held (s : State) : Prop where
  worker : ∀ x, s.worker = some x → s.mem = x.image
  queue : ∀ p ∈ s.chan.queue, Genuine p

theorem held_init (m : Mem) : Held (.init m) := by
  refine ⟨fun x hx => ?_, fun p hp => ?_⟩
  · cases hx
  · cases hp

variable {S}

theorem handle_spec {s s' : State} (h : step S s .handle = some s') :
    ∃ p, s.chan.queue = p :: s'.chan.queue ∧ s'.mem = s.mem ∧ s'.worker = s.worker
      ∧ s'.handed = s.handed ++ [(p.sent, Proxy.invocations S (s.mem.hold p.block) p.record)] := by
  obtain ⟨⟨p, chan⟩, hreceive, rfl⟩ := Option.map_eq_some_iff.1 h
  exact ⟨p, (Fifo.receive_eq_some hreceive).1, rfl, rfl, rfl⟩

theorem held_step {s s' : State} {e : Event} (hH : Held s) (h : step S s e = some s') :
    Held s' := by
  cases e with
  | receive image r =>
    obtain ⟨-, ⟨⟩⟩ := Option.ite_none_right_eq_some.1 h
    refine ⟨fun x hx => ?_, hH.queue⟩
    cases hx
    rfl
  | forget image =>
    obtain ⟨hw, ⟨⟩⟩ := Option.ite_none_right_eq_some.1 h
    refine ⟨fun x hx => ?_, hH.queue⟩
    have hx' : s.worker = some x := hx
    rw [hx'] at hw
    cases hw
  | post copy =>
    obtain ⟨x, hx, rfl⟩ := Option.map_eq_some_iff.1 h
    refine ⟨fun y hy => (by cases hy), fun p hp => ?_⟩
    rcases List.mem_append.1 hp with hp | hp
    · exact hH.queue p hp
    · rw [List.mem_singleton.1 hp, hH.worker x hx]
      exact ⟨copy, rfl, rfl⟩
  | handle =>
    obtain ⟨p, hq, hm, hw, -⟩ := handle_spec h
    refine ⟨fun x hx => ?_, fun q hq' => hH.queue q ?_⟩
    · rw [hm]
      exact hH.worker x (hw ▸ hx)
    · rw [hq]
      exact List.mem_cons_of_mem _ hq'

variable {σ : Type*} (decode : List UInt8 → σ)

/-- Every request that waits was received without a loss. -/
def AllPlain (s : State) : Prop :=
  ∀ p ∈ s.chan.queue, ∀ x ∈ p.sent.request.payload, x.2.Plain decode p.sent.image

theorem allPlain_step {s s' : State} {e : Event} (hA : AllPlain decode s) (hP : Plain decode s e)
    (h : step S s e = some s') : AllPlain decode s' := by
  cases e with
  | receive image r =>
    obtain ⟨-, ⟨⟩⟩ := Option.ite_none_right_eq_some.1 h
    exact hA
  | forget image =>
    obtain ⟨-, ⟨⟩⟩ := Option.ite_none_right_eq_some.1 h
    exact hA
  | post copy =>
    obtain ⟨x, hx, rfl⟩ := Option.map_eq_some_iff.1 h
    intro p hp
    rcases List.mem_append.1 hp with hp | hp
    · exact hA p hp
    · rw [List.mem_singleton.1 hp]
      exact hP rfl x hx
  | handle =>
    obtain ⟨p, hq, -, -, -⟩ := handle_spec h
    intro q hq'
    exact hA q (by rw [hq]; exact List.mem_cons_of_mem _ hq')

/-- Every payload handed over survived, and those that wait still show in memory. -/
def Safe (s : State) : Prop :=
  (∀ h ∈ s.handed, Survived decode h) ∧ ∀ p ∈ s.chan.queue, Kept s.mem p

theorem safe_step {s s' : State} {e : Event} (hH : Held s) (hA : AllPlain decode s)
    (hS : Safe decode s) (hU : Undisturbed s e) (h : step S s e = some s') : Safe decode s' := by
  cases e with
  | receive image r =>
    obtain ⟨-, ⟨⟩⟩ := Option.ite_none_right_eq_some.1 h
    exact ⟨hS.1, hU image rfl⟩
  | forget image =>
    obtain ⟨-, ⟨⟩⟩ := Option.ite_none_right_eq_some.1 h
    exact ⟨hS.1, hU image rfl⟩
  | post copy =>
    obtain ⟨x, hx, rfl⟩ := Option.map_eq_some_iff.1 h
    refine ⟨hS.1, fun p hp => ?_⟩
    rcases List.mem_append.1 hp with hp | hp
    · exact hS.2 p hp
    · rw [List.mem_singleton.1 hp]
      intro c _
      exact congrArg c.2.read (hH.worker x hx)
  | handle =>
    obtain ⟨p, hq, hm, -, hhanded⟩ := handle_spec h
    have hp : p ∈ s.chan.queue := by rw [hq]; exact List.mem_cons_self
    refine ⟨fun x hx => ?_, fun q hq' => ?_⟩
    · rw [hhanded] at hx
      rcases List.mem_append.1 hx with hx | hx
      · exact hS.1 x hx
      · rw [List.mem_singleton.1 hx, survived_iff_of_plain S decode (hH.queue p hp) (hA p hp)]
        exact hS.2 p hp
    · rw [hm]
      exact hS.2 q (by rw [hq]; exact List.mem_cons_of_mem _ hq')

theorem safe_run {m : Mem} {es : List Event} {s : State}
    (hU : Along (step S) (fun s e => Undisturbed s e ∧ Plain decode s e) (.init m) es)
    (h : run (step S) (.init m) es = some s) : Safe decode s := by
  have hinit : Safe decode (.init m) := ⟨fun x hx => (by cases hx), fun p hp => by cases hp⟩
  have hplain : AllPlain decode (.init m) := fun p hp => by cases hp
  exact (inv_of_run (I := fun s => Held s ∧ AllPlain decode s ∧ Safe decode s)
    (fun _ _ _ hI hC hs => ⟨held_step hI.1 hs, allPlain_step decode hI.2.1 hC.2 hs,
      safe_step decode hI.1 hI.2.1 hI.2.2 hC.1 hs⟩)
    ⟨held_init m, hplain, hinit⟩ hU h).2.2

/-- Enough callbacks handle every record that waits, all in the memory there is now. -/
theorem drain : ∀ (q : List Posted) (s : State), s.chan.queue = q →
    ∃ s', run (step S) s (List.replicate q.length .handle) = some s'
      ∧ s'.handed = s.handed
        ++ q.map fun p => (p.sent, Proxy.invocations S (s.mem.hold p.block) p.record)
  | [], s, _ => ⟨s, rfl, by simp⟩
  | p :: q, s, hq => by
    obtain ⟨chan, hreceive, hq', -, -⟩ := Fifo.receive_of_queue hq
    set t : State := { s with
      chan := chan
      handed := s.handed ++ [(p.sent, Proxy.invocations S (s.mem.hold p.block) p.record)] } with ht
    have hs : step S s .handle = some t := by
      unfold step
      rw [hreceive]
      rfl
    obtain ⟨s', hr, hh⟩ := drain q t hq'
    refine ⟨s', (run_cons _).2 ⟨_, hs, hr⟩, ?_⟩
    rw [hh, List.map_cons, List.append_assoc]
    rfl

/-- If whatever waits can be handled now with its payload intact, it survives in the memory there is. -/
theorem survived_of_drained {s : State}
    (h : ∀ n s', run (step S) s (List.replicate n .handle) = some s' →
      ∀ x ∈ s'.handed, Survived decode x) :
    ∀ p ∈ s.chan.queue,
      Survived decode (p.sent, Proxy.invocations S (s.mem.hold p.block) p.record) := by
  intro p hp
  obtain ⟨s', hr, hh⟩ := drain (S := S) s.chan.queue s rfl
  refine h _ s' hr _ ?_
  rw [hh]
  exact List.mem_append_right _ (List.mem_map_of_mem hp)

variable (S)

/-- The payloads survive wherever callbacks come in between. -/
def AllSurvive (m : Mem) (es : List Event) : Prop :=
  ∀ fs n s', fs <+: es → run (step S) (.init m) (fs ++ List.replicate n .handle) = some s' →
    ∀ x ∈ s'.handed, Survived decode x

variable {S} {decode} {m : Mem} {es : List Event} {s : State}

theorem AllSurvive.queue (hall : AllSurvive S decode m es) {fs : List Event} (hfs : fs <+: es)
    {t : State} (h : run (step S) (.init m) fs = some t) :
    ∀ p ∈ t.chan.queue,
      Survived decode (p.sent, Proxy.invocations S (t.mem.hold p.block) p.record) :=
  survived_of_drained decode fun n u hu => hall fs n u hfs (by rw [run_append, h]; exact hu)

theorem AllSurvive.plain (hall : AllSurvive S decode m es)
    (h : run (step S) (.init m) es = some s) : Along (step S) (Plain decode) (.init m) es := by
  refine along_of_prefixes _ es _ (fun fs e t t' hfs ht ht' => ?_) (by rw [h]; rfl)
  have hrun : run (step S) (.init m) (fs ++ [e]) = some t' := (run_concat _).2 ⟨t, ht, ht'⟩
  have hH : Held t := inv_of_any_run (fun _ _ _ => held_step) (held_init m) ht
  cases e with
  | post copy =>
    obtain ⟨x, hx, rfl⟩ := Option.map_eq_some_iff.1 ht'
    intro _ y hy
    obtain rfl := Option.some.inj (hx.symm.trans hy)
    have hmem := hH.worker x hx
    have hp := hall.queue hfs hrun _ (List.mem_append_right _ (List.mem_singleton_self _))
    rw [survived_iff S decode ⟨copy, rfl, by rw [hmem]⟩] at hp
    rw [plain_iff decode]
    simpa only [hmem] using hp
  | receive | forget | handle => exact nofun

theorem AllSurvive.undisturbed (hall : AllSurvive S decode m es)
    (h : run (step S) (.init m) es = some s) : Along (step S) Undisturbed (.init m) es := by
  have hplain := hall.plain h
  refine along_of_prefixes _ es _ (fun fs e t t' hfs ht ht' => ?_) (by rw [h]; rfl)
  have hrun : run (step S) (.init m) (fs ++ [e]) = some t' := (run_concat _).2 ⟨t, ht, ht'⟩
  have hH' : Held t' := inv_of_any_run (fun _ _ _ => held_step) (held_init m) hrun
  obtain ⟨gs, rfl⟩ := hfs
  have hA : AllPlain decode t' :=
    inv_of_run (fun _ _ _ => allPlain_step decode) (fun p hp => by cases hp)
      ((along_append _).1 hplain).1 hrun
  have hkept : ∀ p ∈ t'.chan.queue, Kept t'.mem p := by
    intro p hp
    rw [← survived_iff_of_plain S decode (hH'.queue p hp) (hA p hp)]
    exact hall.queue (List.prefix_append _ _) hrun p hp
  cases e with
  | receive image r =>
    obtain ⟨-, ⟨⟩⟩ := Option.ite_none_right_eq_some.1 ht'
    rintro _ ⟨⟩
    exact hkept
  | forget image =>
    obtain ⟨-, ⟨⟩⟩ := Option.ite_none_right_eq_some.1 ht'
    rintro _ ⟨⟩
    exact hkept
  | post copy => rintro _ ⟨⟩
  | handle => rintro _ ⟨⟩

theorem along_handles (n : ℕ) (t : State) :
    Along (step S) (fun s e => Undisturbed s e ∧ Plain decode s e) t (List.replicate n .handle) := by
  induction n generalizing t with
  | zero => trivial
  | succ n ih =>
    refine ⟨⟨?_, nofun⟩, fun t' _ => ih t'⟩
    rintro _ ⟨⟩

variable (S) (decode)

/-- Wherever callbacks come in between, every payload reaches its method as it was sent, exactly when
every request that is posted is passed without a loss and none that is received disturbs one that
waits. -/
theorem payload_survives_iff (m : Mem) (es : List Event) (s : State)
    (h : run (step S) (.init m) es = some s) :
    (∀ fs n s', fs <+: es → run (step S) (.init m) (fs ++ List.replicate n .handle) = some s' →
        ∀ x ∈ s'.handed, Survived decode x)
      ↔ Along (step S) (fun s e => Undisturbed s e ∧ Plain decode s e) (.init m) es := by
  refine ⟨fun hall => ?_, fun hC fs n s' hfs hr => ?_⟩
  · rw [along_and_iff]
    exact ⟨AllSurvive.undisturbed hall h, AllSurvive.plain hall h⟩
  · obtain ⟨gs, rfl⟩ := hfs
    have hfs := ((along_append _).1 hC).1
    exact (safe_run decode ((along_append _).2 ⟨hfs, fun t _ => along_handles n t⟩) hr).1

def filled (b : UInt8) : Mem := { (default : Mem) with chars := fun _ => [b] }

theorem lookups_survive :
    ∃ s, run (step default) (.init (filled 0)) [.receive (filled 97) (.lookup 1 1 16), .post 32,
        .receive (filled 98) (.lookup 2 1 16), .handle] = some s
      ∧ ∀ x ∈ s.handed, Survived id x := by
  refine ⟨_, rfl, ?_⟩
  refine (payload_survives_iff default id (filled 0) [.receive (filled 97) (.lookup 1 1 16),
    .post 32, .receive (filled 98) (.lookup 2 1 16), .handle] _ rfl).2 ?_ _ 0 _
    (List.prefix_refl _) rfl
  simp [Along, step, Undisturbed, Plain, Event.image?, Event.isPost, State.init, Kept,
    Request.borrowed, Request.payload, Cell.Plain, Cell.Told]

/-- The second request is received before the callback for the first, which then makes the
directory under the second's name. -/
theorem mkDir_name_overwritten :
    ∃ s, run (step default) (.init (filled 0)) [.receive (filled 97) (.mkDir 1 1 16 0o755),
        .post 32, .receive (filled 98) (.mkDir 2 1 16 0o755), .handle] = some s
      ∧ ¬ ∀ x ∈ s.handed, Survived id x := by
  refine ⟨_, rfl, fun h => ?_⟩
  obtain ⟨i, hi, hname⟩ := h _ List.mem_cons_self
  have hargv : i.argv[2]? = some (.string [98]) := by
    rw [← List.singleton_inj.1 hi]
    rfl
  have hsent := (hname (2, .str 16) List.mem_cons_self).1.symm.trans hargv
  cases hsent

end NodeFuse.Receive
