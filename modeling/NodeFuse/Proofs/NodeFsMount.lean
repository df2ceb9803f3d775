import NodeFuse.NodeFsMount
import NodeFuse.Proofs.Delivery
import NodeFuse.Proofs.NodeFsCalls
import NodeFuse.Proofs.NodeFsRuns
import NodeFuse.Proofs.Receive

/-!
# A mount handles one request at a time

As long as no record is stored under a callback and no payload is overwritten before it is unpacked, or
before the method has looked into the structure of its `FileInfo` and replied with it, a method finds
and sends what its request would lead to by itself (`callProxy_eq`, `sentWith_storedBy`). The requests
then take effect one at a time, in their order but for reads (`one_at_a_time`); a kernel that waits with
the next request until the method of the one before has returned is enough for that.
-/

namespace NodeFuse.NodeFsMount

open NodeFs (Conversation enter)
open Runs

variable {W : Type} (S : Session) (U : Utf8) (V : Platform) (D : DirentFormat) (H : Host W)

/-- What is unpacked for a request is as it was received, if what it borrows still is. -/
theorem invocation_of_kept {m : Mem} {x : Received} (h : Kept m x) :
    (x.request.forwarded x.copy).invocation S (m.hold x.block)
      = x.request.invocation S x.image := by
  obtain ⟨request, image, copy, rc⟩ := x
  unfold Kept at h
  cases request with
  | lookup req parent name =>
    -- the method gets the copy, whatever became of libfuse's memory
    have hcopy := Receive.cstr_hold m copy (image.chars name)
    exact congrArg (fun s => (⟨"lookup", Request.argv S req [Request.num parent, .string s]⟩
      : Invocation)) hcopy
  | _ =>
    simp only [Request.borrowed, Request.payload, List.forall_mem_cons, List.not_mem_nil,
      IsEmpty.forall_iff, implies_true, and_true, Cell.read] at h
    simp only [Request.forwarded, Received.block, FileSystem.block, Mem.hold, Request.invocation, h]

/-- Of the structures behind a `FileInfo` a method looks into its own only. -/
theorem invocation_of_fileInfo {f g : VoidPtr → FuseFileInfo} (m : Mem) (r : Request)
    (h : ∀ p ∈ r.fileInfo?, f p = g p) :
    r.invocation S { m with fileInfo := f } = r.invocation S { m with fileInfo := g } := by
  cases r with
  | «open» req ino fi | flush req ino fi | release req ino fi | openDir req ino fi
  | releaseDir req ino fi | fSync req ino datasync fi | fSyncDir req ino datasync fi
  | read req ino size off fi | readDir req ino size off fi | getLock req ino fi lock
  | setLock req ino fi lock sleep =>
    have hfi : f fi = g fi := h fi rfl
    simp only [Request.invocation, hfi]
  | write req ino buf size off fi | create req parent name mode fi =>
    have hfi : f fi = g fi := h fi rfl
    simp only [Request.invocation, hfi]
    rfl
  | _ => rfl

section FileInfos

open ReplyMethods (sentFileInfo)

theorem withFileInfo_of_none {msg : FuseReply} (h : sentFileInfo msg = none) (fi : FuseFileInfo) :
    msg.withFileInfo fi = msg := by
  cases msg with
  | «open» | create => cases h
  | _ => rfl

theorem withFileInfo_self {msg : FuseReply} {fi : FuseFileInfo} (h : sentFileInfo msg = some fi) :
    msg.withFileInfo fi = msg := by
  cases msg with
  | «open» | create =>
    obtain rfl := Option.some.inj h
    rfl
  | _ => cases h

theorem sentFileInfo_addAll (V : Runtime) (rc : ℕ → ℤ) (size : Num) :
    ∀ (cs : List Reply.DirCall) (r : Reply), (∀ msg ∈ r.sent, sentFileInfo msg = none) →
      ∀ msg ∈ (Reply.addAll V D rc size cs r).sent, sentFileInfo msg = none
  | [], _, h => h
  | c :: cs, r, h => by
    rw [Reply.addAll_cons]
    refine sentFileInfo_addAll V rc size cs _ ?_
    rcases lt_or_ge (Reply.room (Reply.requestedSize V size) r.dentryAccSize) c.size with hfit | hfit
    · have hsent := Reply.sent_of_passed (D := D) rc hfit
      unfold Reply.next at hsent
      rw [hsent]
      intro msg hmsg
      rcases List.mem_append.1 hmsg with hmsg | hmsg
      · exact h msg hmsg
      · rcases List.mem_cons.1 hmsg with rfl | hmsg
        · rfl
        · split_ifs at hmsg
          · rw [List.mem_singleton.1 hmsg]
            rfl
          · cases hmsg
    · have hsent := Reply.sent_of_taken (D := D) rc hfit
      unfold Reply.next at hsent
      rwa [hsent]

theorem sentFileInfo_buffer (V : Runtime) (rc : ℕ → ℤ) {r : Reply}
    (h : ∀ msg ∈ r.sent, sentFileInfo msg = none) :
    ∀ msg ∈ (Reply.buffer V rc [.buffer []] r).2.sent, sentFileInfo msg = none := by
  rw [Reply.buffer_sent]
  intro msg hmsg
  rcases List.mem_append.1 hmsg with hmsg | hmsg
  · exact h msg hmsg
  · rw [List.mem_singleton.1 hmsg]
    rfl

theorem sentFileInfo_readdir (V : Runtime) (fs : Fs) (rc : ℕ → ℤ) (inode size offset : ℤ)
    (tree : Tree) :
    ∀ msg ∈ (NodeFs.readdir V D fs rc inode size offset tree).2.sent, sentFileInfo msg = none := by
  have hnew : ∀ msg ∈ Reply.new.sent, sentFileInfo msg = none := fun _ h => by cases h
  unfold NodeFs.readdir
  split
  · exact hnew
  · rename_i fspath names _
    split_ifs
    · exact sentFileInfo_buffer V rc hnew
    · by_cases hall : ∀ name ∈ NodeFs.entries names, NodeFs.hasStat fs fspath name
      · rw [NodeFs.readdirLoop_of_stats V D fs rc fspath size offset _ 0 tree .new hall]
        exact sentFileInfo_buffer V rc (sentFileInfo_addAll D V rc _ _ _ hnew)
      · rw [NodeFs.readdirLoop_of_throw V D fs rc fspath size offset _ 0 tree .new hall]
        exact sentFileInfo_addAll D V rc _ _ _ hnew

/-- A method sends no two file informations. -/
theorem sentFileInfo_replies (nodefs : NodeFs.State W) (rc : ℕ → ℤ) (call : NodeFs.Call) :
    ∀ msg ∈ replies V D H nodefs rc call, ∀ fi, sentFileInfo msg = some fi →
      replies V D H nodefs rc call = [msg] := by
  intro msg hmsg fi hfi
  by_cases hdir : ∀ inode size offset, call ≠ .readdir inode size offset
  · have hle := (NodeFs.replied_once_iff V D H nodefs rc call).2 hdir
    unfold replies at hmsg ⊢
    match hsent : (NodeFs.serve V D H rc call nodefs.tree nodefs.world).reply.sent with
    | [] => simp [hsent] at hmsg
    | [only] =>
      rw [hsent, List.mem_singleton] at hmsg
      rw [hmsg]
    | _ :: _ :: _ => simp [hsent] at hle
  · push Not at hdir
    obtain ⟨inode, size, offset, rfl⟩ := hdir
    have hnone := sentFileInfo_readdir D V.toRuntime (H.fs nodefs.world) rc inode size offset
      nodefs.tree msg hmsg
    rw [hnone] at hfi
    cases hfi

/-- A method that is left alone replies with what it stored. -/
theorem sentWith_storedBy (nodefs : NodeFs.State W) (rc : ℕ → ℤ) (call : NodeFs.Call) (m : Mem)
    (r : Request) :
    sentWith (storedBy m r (replies V D H nodefs rc call)) r (replies V D H nodefs rc call)
      = replies V D H nodefs rc call := by
  have honly := sentFileInfo_replies V D H nodefs rc call
  generalize replies V D H nodefs rc call = sent at honly
  unfold sentWith storedBy
  rcases r.fileInfo? with _ | p
  · rfl
  · simp only []
    by_cases hnone : ∀ msg ∈ sent, sentFileInfo msg = none
    · rw [List.map_congr_left fun msg hmsg => withFileInfo_of_none (hnone msg hmsg) _, List.map_id']
    · push Not at hnone
      obtain ⟨msg, hmsg, hsome⟩ := hnone
      obtain ⟨fi, hfi⟩ := Option.ne_none_iff_exists'.1 hsome
      rw [honly msg hmsg fi hfi]
      simp [hfi, withFileInfo_self hfi]

end FileInfos

theorem move_of_step {s s' : State W} {e : Handoff.Event}
    (h : step S U V D H s (.move e) = some s') :
    e.isArrival = false ∧ (e.isLoops = true → s.running = none) ∧ ∃ handoff,
      Handoff.step s.handoff e = some handoff
        ∧ s' = (handoff.calls.drop s.handoff.calls.length).foldl callProxy { s with handoff } := by
  simp only [step] at h
  split_ifs at h with hblocked
  push Not at hblocked
  obtain ⟨handoff, hhandoff, rfl⟩ := Option.map_eq_some_iff.1 h
  exact ⟨by simpa using hblocked.1, fun hloop => by simpa using hblocked.2 hloop, handoff, hhandoff,
    rfl⟩

theorem look_of_step {s s' : State W} (h : step S U V D H s .look = some s') :
    ∃ x, s.running = some (.entered x) ∧ s' = look S U V D H s x := by
  simp only [step] at h
  split at h
  · rename_i x hx
    exact ⟨x, hx, (Option.some.inj h).symm⟩
  · cases h

theorem return_of_step {s s' : State W} (h : step S U V D H s .return = some s') :
    ∃ x req call, s.running = some (.looked x req call) ∧ s' = { s with
      running := none
      conversation := {
        nodefs := NodeFs.next V D H s.conversation.nodefs ⟨call, x.rc⟩
        replies := s.conversation.replies
          ++ [(req, sentWith s.mem x.request (replies V D H s.conversation.nodefs x.rc call))] }
      handled := s.handled ++ [x.number] } := by
  simp only [step] at h
  split at h
  · rename_i x req call hx
    exact ⟨x, req, call, hx, (Option.some.inj h).symm⟩
  · cases h

theorem finish_of_step {s s' : State W} {k : ℕ} (h : step S U V D H s (.finish k) = some s') :
    s.running = none ∧ ∃ r, s.reading[k]? = some r ∧ s' = { s with
      conversation := s.conversation.take V D H r.rc (some (r.req, r.call))
      reading := s.reading.eraseIdx k
      handled := s.handled ++ [r.number] } := by
  simp only [step] at h
  split_ifs at h with hrunning
  obtain ⟨r, hr, rfl⟩ := Option.map_eq_some_iff.1 h
  exact ⟨by simpa using hrunning, r, hr, rfl⟩

/-- The record of a request that waits for `pending`, or to be stored. -/
def held : Handoff.Worker → List ThreadFunData
  | .waiting d | .writing d => [d]
  | _ => []

/-- The method runs as it does for its request by itself, with what it stored itself. -/
def Faithful (m : Mem) (nodefs : NodeFs.State W) (y : Received) : Running → Prop
  | .entered x => x.invocation S m = y.request.invocation S y.image
  | .looked x req call => enter U (y.request.invocation S y.image) = some (req, call)
    ∧ sentWith m x.request (replies V D H nodefs x.rc call) = replies V D H nodefs x.rc call

/-- The invariant: the records are those of the requests, what a request that waits for its call borrows
still shows, and the method that runs is the one called last. -/
structure Sound (w : W) (s : State W) : Prop where
  current : Handoff.Current s.handoff
  posted : s.handoff.created ++ held s.handoff.worker
    = s.received.map fun x => FileSystem.serve x.copy x.request
  kept : WaitingKept s s.mem
  running : ∀ r ∈ s.running, ∃ y, s.received[r.called.number]? = some y ∧ r.called.rc = y.rc
    ∧ r.called.number + 1 = s.handoff.calls.length
    ∧ Faithful S U V D H s.mem s.conversation.nodefs y r
  reading : ∀ r ∈ s.reading, ∃ y, s.received[r.number]? = some y ∧ r.rc = y.rc
    ∧ enter U (y.request.invocation S y.image) = some (r.req, r.call) ∧ isRead r.call
  effects : OneAtATime S U V D H w s

theorem sound_init (w : W) (m : Mem) : Sound S U V D H w (.init w m) where
  current := Handoff.current_init
  posted := rfl
  kept := fun x hx => by cases hx
  running := fun r hr => by cases hr
  reading := fun r hr => by cases hr
  effects := ⟨List.Perm.refl _, List.Pairwise.nil, rfl⟩

variable {S U V D H} {w : W} {s : State W}

theorem Sound.calls_le (h : Sound S U V D H w s) :
    s.handoff.calls.length ≤ s.received.length := by
  have hle := ((Handoff.ordered_iff _).1 h.current.intact.1).2
  have hlen := congrArg List.length h.posted
  simp only [List.length_append, List.length_map] at hlen
  omega

theorem OneAtATime.lt (h : OneAtATime S U V D H w s) :
    ∀ i ∈ s.handled ++ underWay s, i < s.handoff.calls.length :=
  fun _ hi => List.mem_range.1 (h.all.mem_iff.1 hi)

theorem OneAtATime.lt_of_handled (h : OneAtATime S U V D H w s) :
    ∀ i ∈ s.handled, i < s.handoff.calls.length :=
  fun i hi => h.lt i (List.mem_append_left _ hi)

theorem underWay_of_some {r : Running} (hr : s.running = some r) :
    underWay s = s.reading.map Reading.number ++ [r.called.number] := by
  unfold underWay
  rw [hr]
  rfl

theorem underWay_of_none (h : s.running = none) : underWay s = s.reading.map Reading.number := by
  unfold underWay
  rw [h]
  exact List.append_nil _

/-- What has taken effect came before the method that runs. -/
theorem Sound.lt_running (h : Sound S U V D H w s) {r : Running} (hr : s.running = some r) :
    ∀ i ∈ s.handled, i < r.called.number := by
  obtain ⟨y, -, -, hlast, -⟩ := h.running r hr
  intro i hi
  have hlt := h.effects.lt_of_handled i hi
  have hnodup := h.effects.all.nodup_iff.2 List.nodup_range
  have hmem : r.called.number ∈ underWay s := by
    rw [underWay_of_some hr]
    exact List.mem_append_right _ (List.mem_singleton.2 rfl)
  have hne : i ≠ r.called.number := (List.nodup_append.1 hnodup).2.2 i hi _ hmem
  omega

theorem foldl_atOnce_append (received : List Received) (x : Received) :
    ∀ (numbers : List ℕ) (c : Conversation W), (∀ i ∈ numbers, i < received.length) →
      numbers.foldl (atOnce S U V D H (received ++ [x])) c
        = numbers.foldl (atOnce S U V D H received) c
  | [], _, _ => rfl
  | i :: numbers, c, h => by
    have hi : (received ++ [x])[i]? = received[i]? :=
      List.getElem?_append_left (h i List.mem_cons_self)
    have ih := fun c => foldl_atOnce_append received x numbers c
      fun j hj => h j (List.mem_cons_of_mem _ hj)
    rw [List.foldl_cons, List.foldl_cons, ih]
    unfold atOnce
    rw [hi]

/-- A request is received. -/
theorem oneAtATime_receive (h : Sound S U V D H w s) (x : Received) {handoff : Handoff.State}
    (hcalls : handoff.calls = s.handoff.calls) (m : Mem) :
    OneAtATime S U V D H w { s with handoff, mem := m, received := s.received ++ [x] } := by
  have hle := h.calls_le
  have hhandled := h.effects.lt_of_handled
  refine ⟨?_, ?_, ?_⟩
  · rw [hcalls]
    exact h.effects.all
  · refine h.effects.order.imp_of_mem fun {i j} _ hj hij => hij.imp_right ?_
    rintro ⟨y, hy, hread⟩
    have hlt := hhandled j hj
    exact ⟨y, by rw [List.getElem?_append_left (by omega)]; exact hy, hread⟩
  · rw [foldl_atOnce_append s.received x s.handled _ fun i hi => (hhandled i hi).trans_le hle]
    exact h.effects.effect

/-- One more request takes effect. -/
theorem OneAtATime.concat (h : OneAtATime S U V D H w s) {number : ℕ} {s' : State W}
    (hreceived : s'.received = s.received) (hhandoff : s'.handoff = s.handoff)
    (hhandled : s'.handled = s.handled ++ [number])
    (heffect : s'.conversation = atOnce S U V D H s.received s.conversation number)
    (hall : (number :: underWay s').Perm (underWay s))
    (horder : ∀ i ∈ s.handled, i < number ∨ Postponed S U s.received number) :
    OneAtATime S U V D H w s' := by
  refine ⟨?_, ?_, ?_⟩
  · rw [hhandled, hhandoff, List.append_assoc, List.singleton_append]
    exact (hall.append_left s.handled).trans h.all
  · rw [hhandled, hreceived]
    refine List.pairwise_append.2 ⟨h.order, List.pairwise_singleton _ _, fun i hi j hj => ?_⟩
    rw [List.mem_singleton.1 hj]
    exact horder i hi
  · rw [hhandled, hreceived, List.foldl_append, ← h.effect, heffect]
    rfl

theorem atOnce_eq {received : List Received} {number : ℕ} {y : Received}
    (hy : received[number]? = some y) (c : Conversation W) :
    atOnce S U V D H received c number
      = c.take V D H y.rc (enter U (y.request.invocation S y.image)) := by
  unfold atOnce
  rw [hy]

/-- What is called is the oldest request that was not yet, by its own operation. -/
theorem called {s' : Handoff.State} (hC : Handoff.Current s.handoff)
    (h : Handoff.step s.handoff .call = some s') : ∃ d,
      s.handoff.created[s.handoff.calls.length]? = some d
        ∧ s.handoff.created.length = s.handoff.calls.length + 1
        ∧ s' = { s.handoff with
          calls := s.handoff.calls ++ [⟨d.op, .record s.handoff.calls.length⟩], loop := .polling } := by
  cases Handoff.move_of_step h with
  | call argument op hl ho =>
    have hne : s.handoff.loop ≠ .polling := by rw [hl]; exact Handoff.Loop.noConfusion
    have hlen := hC.intact.2 hne
    have hdata := hC.kept.1.newest _ hlen
    rw [hC.argument argument hl, hdata, Handoff.State.opOf, Option.map_eq_some_iff] at ho
    obtain ⟨d, hd, rfl⟩ := ho
    exact ⟨d, hd, hlen, by rw [hdata]⟩

/-- The callback enters the method of the request, which finds the arguments it has by itself. -/
theorem callProxy_eq (h : Sound S U V D H w s) {d : ThreadFunData}
    (hd : s.handoff.created[s.handoff.calls.length]? = some d) (handoff : Handoff.State)
    (hcreated : handoff.created = s.handoff.created) :
    ∃ x r, s.received[s.handoff.calls.length]? = some x
      ∧ callProxy { s with handoff } ⟨d.op, .record s.handoff.calls.length⟩
        = { s with handoff, running := some (.entered ⟨s.handoff.calls.length, x.rc, r,
          s.mem.hold x.block⟩) }
      ∧ r.invocation S { s.mem.hold x.block with fileInfo := s.mem.fileInfo }
        = x.request.invocation S x.image := by
  have hposted := congrArg (fun l => l[s.handoff.calls.length]?) h.posted
  rw [List.getElem?_append_left (List.getElem?_eq_some_iff.1 hd).1, hd, List.getElem?_map,
    eq_comm, Option.map_eq_some_iff] at hposted
  obtain ⟨x, hx, rfl⟩ := hposted
  have hmem : x ∈ s.received.drop s.handoff.calls.length := by
    rw [List.drop_eq_getElem?_toList_append, hx]
    exact List.mem_append_left _ (List.mem_singleton.2 rfl)
  have hfileInfo : (s.mem.hold x.block).fileInfo = s.mem.fileInfo := by
    unfold Mem.hold
    rcases x.block with _ | ⟨a, bytes⟩
    · rfl
    · rfl
  refine ⟨x, x.request.forwarded x.copy, hx, ?_, ?_⟩
  · unfold callProxy
    simp only [hcreated, hd, hx, call_serve, List.head?_cons, Option.map_some]
  · rw [← hfileInfo]
    exact invocation_of_kept S (h.kept x hmem)

theorem sound_call (h : Sound S U V D H w s) (hrunning : s.running = none)
    {handoff : Handoff.State} (hC : Handoff.Current handoff)
    (hstep : Handoff.step s.handoff .call = some handoff) :
    Sound S U V D H w
      ((handoff.calls.drop s.handoff.calls.length).foldl callProxy { s with handoff }) := by
  obtain ⟨d, hd, hlen, rfl⟩ := called h.current hstep
  obtain ⟨x, r, hx, hcall, hinvocation⟩ := callProxy_eq h hd { s.handoff with
    calls := s.handoff.calls ++ [⟨d.op, .record s.handoff.calls.length⟩], loop := .polling } rfl
  simp only [List.drop_left, List.foldl_cons, List.foldl_nil]
  rw [hcall]
  refine ⟨hC, h.posted, ?_, ?_, h.reading, ⟨?_, h.effects.order, h.effects.effect⟩⟩
  · intro y hy
    refine h.kept y (List.drop_subset_drop_left _ ?_ hy)
    simp
  · intro r' hr'
    obtain rfl := Option.some.inj hr'
    exact ⟨x, hx, rfl, by simp [Running.called], hinvocation⟩
  · have hall := h.effects.all
    rw [underWay_of_none hrunning] at hall
    rw [List.length_append, List.length_singleton, List.range_succ]
    have happend := hall.append_right [s.handoff.calls.length]
    rw [List.append_assoc] at happend
    exact happend

theorem posted_receive {handoff : Handoff.State} {x : Received}
    (hposted : s.handoff.created ++ held s.handoff.worker
      = s.received.map fun x => FileSystem.serve x.copy x.request)
    (h : Handoff.step s.handoff (.arrive x.copy x.request) = some handoff) :
    handoff.created ++ held handoff.worker
      = (s.received ++ [x]).map fun x => FileSystem.serve x.copy x.request := by
  obtain ⟨hidle, ⟨⟩⟩ := Option.ite_none_right_eq_some.1 h
  rw [hidle] at hposted
  simp only [held, List.append_nil, List.map_append, List.map_cons, List.map_nil] at hposted ⊢
  rw [hposted]

theorem posted_move {t t' : Handoff.State} {e : Handoff.Event} (he : e.isArrival = false)
    (h : Handoff.step t e = some t') : t'.created ++ held t'.worker = t.created ++ held t.worker := by
  cases Handoff.move_of_step h with
  | arrive => cases he
  | wait => rfl
  | pass d hw | send hw => simp [hw, held]
  | write d hw => simp [hw, held]
  | clear | readOp | call => rfl

theorem calls_move {t t' : Handoff.State} {e : Handoff.Event} (he : e ≠ .call)
    (h : Handoff.step t e = some t') : t'.calls = t.calls := by
  cases Handoff.move_of_step h with
  | call => exact absurd rfl he
  | _ => rfl

theorem sound_move (h : Sound S U V D H w s) {e : Handoff.Event} (harrival : e.isArrival = false)
    (hloop : e.isLoops = true → s.running = none) {handoff : Handoff.State}
    (hC : Handoff.Current handoff) (hstep : Handoff.step s.handoff e = some handoff) :
    Sound S U V D H w
      ((handoff.calls.drop s.handoff.calls.length).foldl callProxy { s with handoff }) := by
  by_cases he : e = .call
  · subst he
    exact sound_call h (hloop rfl) hC hstep
  · have hcalls := calls_move he hstep
    rw [hcalls, List.drop_length, List.foldl_nil]
    refine ⟨hC, (posted_move harrival hstep).trans h.posted, ?_, ?_, h.reading, ?_⟩
    · unfold WaitingKept
      rw [hcalls]
      exact h.kept
    · rw [hcalls]
      exact h.running
    · exact ⟨by rw [hcalls]; exact h.effects.all, h.effects.order, h.effects.effect⟩

/-- The method looks into the structure of its `FileInfo`. -/
theorem sound_look (h : Sound S U V D H w s) {x : Called} (hx : s.running = some (.entered x))
    (hkept : WaitingKept s (look S U V D H s x).mem) :
    Sound S U V D H w (look S U V D H s x) := by
  obtain ⟨y, hy, hrc, hlast, hsame⟩ := h.running _ hx
  have hunder := underWay_of_some hx
  simp only [Running.called] at hy hrc hlast hunder
  have hunpacked : x.invocation S s.mem = y.request.invocation S y.image := hsame
  unfold look at hkept ⊢
  rw [hunpacked] at hkept ⊢
  rcases henter : enter U (y.request.invocation S y.image) with _ | ⟨req, call⟩
  · simp only []
    refine ⟨h.current, h.posted, h.kept, (fun r hr => by cases hr), h.reading, ?_⟩
    refine h.effects.concat rfl rfl rfl ?_ ?_ fun i hi => .inl (h.lt_running hx i hi)
    · rw [atOnce_eq hy, henter]
      rfl
    · rw [hunder, underWay_of_none rfl]
      exact (List.perm_append_singleton _ _).symm
  · rw [henter] at hkept
    simp only [] at hkept ⊢
    split_ifs at hkept ⊢ with hread
    · refine ⟨h.current, h.posted, h.kept, (fun r hr => by cases hr), fun r hr => ?_, ?_⟩
      · rcases List.mem_append.1 hr with hr | hr
        · exact h.reading r hr
        · rw [List.mem_singleton.1 hr]
          exact ⟨y, hy, hrc, henter, hread⟩
      · refine ⟨?_, h.effects.order, h.effects.effect⟩
        have hall := h.effects.all
        rw [hunder] at hall
        rw [underWay_of_none rfl, List.map_append]
        exact hall
    · refine ⟨h.current, h.posted, hkept, fun r hr => ?_, h.reading, ?_⟩
      · obtain rfl := Option.some.inj hr
        exact ⟨y, hy, hrc, hlast, henter, sentWith_storedBy V D H _ _ _ _ _⟩
      · refine ⟨?_, h.effects.order, h.effects.effect⟩
        have hall := h.effects.all
        rw [hunder] at hall
        exact hall

/-- The method replies and returns. -/
theorem sound_return (h : Sound S U V D H w s) {x : Called} {req : VoidPtr} {call : NodeFs.Call}
    (hx : s.running = some (.looked x req call)) :
    Sound S U V D H w { s with
      running := none
      conversation := {
        nodefs := NodeFs.next V D H s.conversation.nodefs ⟨call, x.rc⟩
        replies := s.conversation.replies
          ++ [(req, sentWith s.mem x.request (replies V D H s.conversation.nodefs x.rc call))] }
      handled := s.handled ++ [x.number] } := by
  obtain ⟨y, hy, hrc, -, henter, hsent⟩ := h.running _ hx
  have hunder := underWay_of_some hx
  simp only [Running.called] at hy hrc hunder
  rw [hsent]
  refine ⟨h.current, h.posted, h.kept, (fun r hr => by cases hr), h.reading, ?_⟩
  refine h.effects.concat rfl rfl rfl ?_ ?_ fun i hi => .inl (h.lt_running hx i hi)
  · rw [atOnce_eq hy, henter, ← hrc]
    rfl
  · rw [hunder, underWay_of_none rfl]
    exact (List.perm_append_singleton _ _).symm

/-- The callback of a read comes. -/
theorem sound_finish (h : Sound S U V D H w s) (hrunning : s.running = none) {k : ℕ} {r : Reading}
    (hr : s.reading[k]? = some r) :
    Sound S U V D H w { s with
      conversation := s.conversation.take V D H r.rc (some (r.req, r.call))
      reading := s.reading.eraseIdx k
      handled := s.handled ++ [r.number] } := by
  obtain ⟨y, hy, hrc, henter, hread⟩ := h.reading r (List.mem_of_getElem? hr)
  obtain ⟨hk, hget⟩ := List.getElem?_eq_some_iff.1 hr
  refine ⟨h.current, h.posted, h.kept, ?_, fun r' hr' => h.reading r' (List.mem_of_mem_eraseIdx hr'),
    ?_⟩
  · intro r' hr'
    rw [hrunning] at hr'
    cases hr'
  · refine h.effects.concat rfl rfl rfl ?_ ?_ fun i _ => .inr ⟨y, hy, r.req, r.call, henter, hread⟩
    · rw [atOnce_eq hy, henter, hrc]
    · have herase := (List.getElem_cons_eraseIdx_perm hk).map Reading.number
      rw [hget, List.map_cons] at herase
      unfold underWay
      rw [hrunning, Option.toList_none, List.map_nil, List.append_nil, List.append_nil]
      exact herase

/-- Nothing but the structure behind its `FileInfo` matters to the method that runs. -/
theorem faithful_of_mem {m m' : Mem} {nodefs : NodeFs.State W} {y : Received} {r : Running}
    (h : Faithful S U V D H m nodefs y r)
    (hkept : ∀ p ∈ r.called.request.fileInfo?, m'.fileInfo p = m.fileInfo p) :
    Faithful S U V D H m' nodefs y r := by
  cases r with
  | entered x => exact (invocation_of_fileInfo S x.image x.request hkept).trans h
  | looked x req call =>
    refine ⟨h.1, ?_⟩
    have hsame : sentWith m' x.request (replies V D H nodefs x.rc call)
        = sentWith m x.request (replies V D H nodefs x.rc call) := by
      unfold sentWith
      rcases hp : x.request.fileInfo? with _ | p
      · rfl
      · simp only [hkept p hp]
    exact hsame.trans h.2

theorem sound_step {e : Event} {s' : State W} (h : Sound S U V D H w s)
    (hC : Orderly S U V D H s e) (hstep : step S U V D H s e = some s') :
    Sound S U V D H w s' := by
  cases e with
  | receive x =>
    obtain ⟨handoff, hhandoff, rfl⟩ := Option.map_eq_some_iff.1 hstep
    have hcurrent := Handoff.current_step h.current (fun he => by cases he) hhandoff
    have hposted := posted_receive h.posted hhandoff
    obtain ⟨-, ⟨⟩⟩ := Option.ite_none_right_eq_some.1 hhandoff
    have hlater : ∀ {number : ℕ} {y : Received}, s.received[number]? = some y →
        (s.received ++ [x])[number]? = some y := by
      intro number y hy
      rw [List.getElem?_append_left (List.getElem?_eq_some_iff.1 hy).1]
      exact hy
    refine ⟨hcurrent, hposted, ?_, ?_, ?_, oneAtATime_receive h x (by rfl) x.image⟩
    · intro y hy
      rw [List.drop_append_of_le_length h.calls_le] at hy
      rcases List.mem_append.1 hy with hy | hy
      · exact hC.waiting x.image rfl y hy
      · rw [List.mem_singleton.1 hy]
        exact fun _ _ => rfl
    · intro r hr
      obtain ⟨y, hy, hrc, hlast, hfaithful⟩ := h.running r hr
      exact ⟨y, hlater hy, hrc, hlast, faithful_of_mem hfaithful (hC.running x.image rfl r hr)⟩
    · intro r hr
      obtain ⟨y, hy, hrest⟩ := h.reading r hr
      exact ⟨y, hlater hy, hrest⟩
  | forget image =>
    obtain ⟨-, ⟨⟩⟩ := Option.ite_none_right_eq_some.1 hstep
    refine ⟨h.current, h.posted, hC.waiting image rfl, fun r hr => ?_, h.reading,
      ⟨h.effects.all, h.effects.order, h.effects.effect⟩⟩
    obtain ⟨y, hy, hrc, hlast, hfaithful⟩ := h.running r hr
    exact ⟨y, hy, hrc, hlast, faithful_of_mem hfaithful (hC.running image rfl r hr)⟩
  | move e =>
    obtain ⟨harrival, hloop, handoff, hhandoff, rfl⟩ := move_of_step S U V D H hstep
    have hcurrent := Handoff.current_step h.current (hC.handoff e rfl) hhandoff
    exact sound_move h harrival hloop hcurrent hhandoff
  | look =>
    obtain ⟨x, hx, rfl⟩ := look_of_step S U V D H hstep
    exact sound_look h hx (hC.stored rfl x hx)
  | «return» =>
    obtain ⟨x, req, call, hx, rfl⟩ := return_of_step S U V D H hstep
    exact sound_return h hx
  | finish k =>
    obtain ⟨hrunning, r, hr, rfl⟩ := finish_of_step S U V D H hstep
    exact sound_finish h hrunning hr

/-! ## A kernel that waits -/

/-- What holds as long as nothing is received until the method of the request before has returned. -/
structure Waiting (s : State W) : Prop where
  tally : Handoff.Tally s.handoff
  posted : s.handoff.created ++ held s.handoff.worker
    = s.received.map fun x => FileSystem.serve x.copy x.request
  one : s.received.length ≤ s.handoff.calls.length + 1
  alone : s.running.isSome → s.received.length = s.handoff.calls.length

theorem waiting_init (w : W) (m : Mem) : Waiting (State.init w m) :=
  ⟨Handoff.tally_init, rfl, Nat.zero_le _, fun _ => rfl⟩

theorem callProxy_fields (t : State W) (c : Handoff.Call) :
    (callProxy t c).handoff = t.handoff ∧ (callProxy t c).received = t.received := by
  unfold callProxy
  split
  · exact ⟨rfl, rfl⟩
  · split
    · exact ⟨rfl, rfl⟩
    · exact ⟨rfl, rfl⟩

theorem callProxy_foldl_fields : ∀ (cs : List Handoff.Call) (t : State W),
    (cs.foldl callProxy t).handoff = t.handoff ∧ (cs.foldl callProxy t).received = t.received
  | [], _ => ⟨rfl, rfl⟩
  | c :: cs, t => by
    obtain ⟨h1, h2⟩ := callProxy_fields t c
    obtain ⟨ih1, ih2⟩ := callProxy_foldl_fields cs (callProxy t c)
    exact ⟨ih1.trans h1, ih2.trans h2⟩

theorem look_fields (t : State W) (x : Called) :
    (look S U V D H t x).handoff = t.handoff ∧ (look S U V D H t x).received = t.received := by
  unfold look
  split
  · split_ifs
    · exact ⟨rfl, rfl⟩
    · exact ⟨rfl, rfl⟩
  · exact ⟨rfl, rfl⟩

/-- A step of the mount but for a request that is received. -/
theorem waiting_move (h : Waiting s) {e : Handoff.Event} (harrival : e.isArrival = false)
    {handoff : Handoff.State} (hstep : Handoff.step s.handoff e = some handoff) :
    Waiting ((handoff.calls.drop s.handoff.calls.length).foldl callProxy { s with handoff }) := by
  obtain ⟨htally, hposted, hone, halone⟩ := h
  have htally' := Handoff.tally_step htally hstep
  have hposted' := (posted_move harrival hstep).trans hposted
  have hlen := congrArg List.length hposted'
  simp only [List.length_append, List.length_map] at hlen
  have hcount := htally'.count
  by_cases he : e = .call
  · subst he
    obtain ⟨h1, h2⟩ := callProxy_foldl_fields (handoff.calls.drop s.handoff.calls.length)
      { s with handoff }
    have hcalls : handoff.calls.length = s.handoff.calls.length + 1 := by
      cases Handoff.move_of_step hstep with
      | call argument op hl ho => simp
    refine ⟨by rw [h1]; exact htally', by rw [h1, h2]; exact hposted', ?_, fun _ => ?_⟩
    · rw [h1, h2]
      simp only []
      omega
    · rw [h1, h2]
      simp only []
      omega
  · have hcalls := calls_move he hstep
    rw [hcalls, List.drop_length, List.foldl_nil]
    refine ⟨htally', hposted', ?_, ?_⟩
    · rw [hcalls]
      exact hone
    · rw [hcalls]
      exact halone

theorem waiting_step {e : Event} {s' : State W} (h : Waiting s) (hC : Waits s e)
    (hstep : step S U V D H s e = some s') : Waiting s' := by
  cases e with
  | receive x =>
    obtain ⟨hall, hnone⟩ := hC rfl
    obtain ⟨handoff, hhandoff, rfl⟩ := Option.map_eq_some_iff.1 hstep
    have htally' := Handoff.tally_step h.tally hhandoff
    have hposted := posted_receive h.posted hhandoff
    obtain ⟨-, ⟨⟩⟩ := Option.ite_none_right_eq_some.1 hhandoff
    refine ⟨htally', hposted, ?_, fun hsome => ?_⟩
    · simp only [List.length_append, List.length_singleton]
      omega
    · rw [Option.isNone_iff_eq_none] at hnone
      rw [hnone] at hsome
      cases hsome
  | forget image =>
    obtain ⟨-, ⟨⟩⟩ := Option.ite_none_right_eq_some.1 hstep
    exact ⟨h.tally, h.posted, h.one, h.alone⟩
  | move e =>
    obtain ⟨harrival, -, handoff, hhandoff, rfl⟩ := move_of_step S U V D H hstep
    exact waiting_move h harrival hhandoff
  | look =>
    obtain ⟨x, hx, rfl⟩ := look_of_step S U V D H hstep
    obtain ⟨h1, h2⟩ := look_fields (S := S) (U := U) (V := V) (D := D) (H := H) s x
    refine ⟨by rw [h1]; exact h.tally, by rw [h1, h2]; exact h.posted, by rw [h1, h2]; exact h.one,
      fun _ => ?_⟩
    rw [h1, h2]
    exact h.alone (by rw [hx]; rfl)
  | «return» =>
    obtain ⟨x, req, call, -, rfl⟩ := return_of_step S U V D H hstep
    exact ⟨h.tally, h.posted, h.one, fun hsome => by cases hsome⟩
  | finish k =>
    obtain ⟨-, r, -, rfl⟩ := finish_of_step S U V D H hstep
    exact ⟨h.tally, h.posted, h.one, h.alone⟩

theorem orderly_of_waits {e : Event} {s' : State W} (h : Waiting s) (hC : Waits s e)
    (hstep : step S U V D H s e = some s') : Orderly S U V D H s e := by
  obtain ⟨htally, hposted, hone, halone⟩ := h
  have hlen := congrArg List.length hposted
  simp only [List.length_append, List.length_map] at hlen
  -- nothing waits for its call when all were called
  have hnone : s.received.length = s.handoff.calls.length → ∀ m, WaitingKept s m := by
    intro hall m x hx
    rw [← hall, List.drop_length] at hx
    cases hx
  refine ⟨?_, fun m hm => ?_, fun m hm r hr => ?_, fun _ x hx => ?_⟩
  · rintro _ rfl rfl
    obtain ⟨-, -, handoff, hhandoff, -⟩ := move_of_step S U V D H hstep
    cases Handoff.move_of_step hhandoff with
    | write d hw =>
      have hcount := htally.count
      have hpending := htally.writing d hw
      rw [hw] at hcount hlen
      simp only [Handoff.Worker.stored, held, List.length_singleton] at hcount hlen
      -- a callback under way would be for the request before, which was called
      cases hloop : s.handoff.loop with
      | polling => rfl
      | cleared | named =>
        rw [hloop] at hcount
        simp only [Handoff.Loop.taken] at hcount
        omega
  · exact hnone (hC (by rw [hm]; rfl)).1 m
  · have hidle := Option.isNone_iff_eq_none.1 (hC (by rw [hm]; rfl)).2
    rw [hidle] at hr
    cases hr
  · exact hnone (halone (by rw [hx]; rfl)) _

theorem sound_run (w : W) (m : Mem) {es : List Event} {s : State W}
    (h : run (step S U V D H) (.init w m) es = some s)
    (hC : Along (step S U V D H) (Orderly S U V D H) (.init w m) es) : Sound S U V D H w s :=
  inv_of_run (fun _ _ _ => sound_step) (sound_init S U V D H w m) hC h

theorem orderly_of_waits_run (w : W) (m : Mem) {es : List Event} {s : State W}
    (h : run (step S U V D H) (.init w m) es = some s)
    (hC : Along (step S U V D H) Waits (.init w m) es) :
    Along (step S U V D H) (Orderly S U V D H) (.init w m) es :=
  along_of_along (fun _ _ _ => waiting_step) (fun _ _ _ => orderly_of_waits) (waiting_init w m) hC h

variable (S U V D H)

/-- A read and then a directory, whose method runs before the callback of the read. -/
def overtakenRead : List Event :=
  [.receive ⟨.read 1 1 16 0 8, Receive.filled 97, 0, fun _ => 0⟩, .move .test, .move .write,
    .move .send, .move .clear, .move .readOp, .move .call, .look,
    .receive ⟨.mkDir 2 1 16 0o755, Receive.filled 98, 0, fun _ => 0⟩, .move .test, .move .write,
    .move .send, .move .clear, .move .readOp, .move .call, .look, .return, .finish 0]

/-- Whom the method of the request of the number replies to. -/
def addressee (received : List Received) (number : ℕ) : Option VoidPtr :=
  received[number]?.bind fun x => (enter U (x.request.invocation S x.image)).map Prod.fst

theorem replies_atOnce (received : List Received) (c : Conversation W) (number : ℕ) :
    (atOnce S U V D H received c number).replies.map Prod.fst
      = c.replies.map Prod.fst ++ (addressee S U received number).toList := by
  unfold atOnce addressee
  rcases received[number]? with _ | x
  · simp
  · simp only [Option.bind_some]
    rcases enter U (x.request.invocation S x.image) with _ | ⟨req, call⟩
    · simp [Conversation.take]
    · simp [Conversation.take]

theorem replies_foldl_atOnce (received : List Received) : ∀ (numbers : List ℕ)
    (c : Conversation W), (numbers.foldl (atOnce S U V D H received) c).replies.map Prod.fst
      = c.replies.map Prod.fst ++ numbers.filterMap (addressee S U received)
  | [], c => (List.append_nil _).symm
  | number :: numbers, c => by
    rw [List.foldl_cons, replies_foldl_atOnce received numbers, replies_atOnce, List.append_assoc,
      List.filterMap_cons]
    rcases addressee S U received number with _ | req
    · rfl
    · rfl

theorem filterMap_range_getElem? {α β : Type} (l : List α) (f : α → Option β) :
    ((List.range l.length).filterMap fun i => l[i]?.bind f) = l.filterMap f := by
  have hmap : (List.range l.length).map (fun i => l[i]?) = l.map some := by
    refine List.ext_getElem (by simp) fun i hi _ => ?_
    have hlt : i < l.length := by simpa using hi
    simp [List.getElem?_eq_getElem hlt]
  have h := congrArg (List.filterMap fun o : Option α => o.bind f) hmap
  rw [List.filterMap_map, List.filterMap_map] at h
  exact h

/-- One more request is replied to once exactly when its call is one to reply once. -/
theorem replied_atOnce_iff (received : List Received) (c : Conversation W) (number : ℕ) :
    (∀ r ∈ (atOnce S U V D H received c number).replies, r.2.length = 1)
      ↔ (∀ r ∈ c.replies, r.2.length = 1) ∧ RepliedOnce S U V H received c number := by
  unfold atOnce RepliedOnce
  rcases received[number]? with _ | x
  · simp
  · rcases henter : enter U (x.request.invocation S x.image) with _ | ⟨req, call⟩
    · simp [Conversation.take, henter]
    · have hiff := NodeFs.length_sent_eq_one_iff V D H c.nodefs x.rc call
      simp [Conversation.take, henter, or_imp, forall_and, hiff]

end NodeFuse.NodeFsMount
