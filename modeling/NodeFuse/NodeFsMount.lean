import NodeFuse.Handoff
import NodeFuse.NodeFsCalls
import NodeFuse.Receive

/-!
# A mount of NodeFS

The worker and the loop thread of a mount (`Handoff`), the memory the requests lie in (`Receive`) and
NodeFS behind the proxy, as one machine. The next request may be received while a method runs: what it
was called with is its own by then, but for the structure behind its `FileInfo`, which it looks into
later and which its reply is sent with at the end. The callback of `fs.read` comes some time later, and
what the other methods do in between is what it reads.
-/

namespace NodeFuse

/-- The structure behind the `FileInfo` that the method is passed. -/
def Request.fileInfo? (r : Request) : Option VoidPtr :=
  r.payload.findSome? fun c =>
    match c.2 with
    | .fileInfo p => some p
    | _ => none

/-- The reply, sent with this file information. -/
def FuseReply.withFileInfo (fi : FuseFileInfo) : FuseReply → FuseReply
  | .open _ => .open fi
  | .create e _ => .create e fi
  | r => r

end NodeFuse

namespace NodeFuse.NodeFsMount

open NodeFs (Conversation enter)

/-- A request as libfuse received it, with the block that `new` gives `Lookup` and what libfuse returns
for the replies. -/
structure Received where
  request : Request
  image : Mem
  copy : VoidPtr
  rc : ℕ → ℤ

def Received.block (x : Received) : Option (VoidPtr × List UInt8) :=
  FileSystem.block x.copy x.image x.request

/-- A method that was called for the request of the number. -/
structure Called where
  number : ℕ
  rc : ℕ → ℤ
  /-- What the proxy found in the record. -/
  request : Request
  /-- The memory as it was at the call. -/
  image : Mem

/-- The arguments are those of the call, but a `FileInfo` has what its structure holds now. -/
def Called.invocation (S : Session) (m : Mem) (x : Called) : Invocation :=
  x.request.invocation S { x.image with fileInfo := m.fileInfo }

inductive Running
  | entered (x : Called)
  /-- The method has looked into the structure of its `FileInfo` and is still to reply. -/
  | looked (x : Called) (req : VoidPtr) (call : NodeFs.Call)

def Running.called : Running → Called
  | entered x | looked x _ _ => x

/-- A read whose callback is still to come, for the request of the number. -/
structure Reading where
  number : ℕ
  rc : ℕ → ℤ
  req : VoidPtr
  call : NodeFs.Call

structure State (W : Type) where
  handoff : Handoff.State
  /-- libfuse's buffer and the structures of the last call. -/
  mem : Mem
  received : List Received
  conversation : Conversation W
  /-- The method that the loop thread is in. -/
  running : Option Running
  reading : List Reading
  /-- The requests that have taken effect, in that order. They are numbered as they were received. -/
  handled : List ℕ

def State.init {W : Type} (w : W) (m : Mem) : State W := ⟨.init, m, [], .init w, none, [], []⟩

inductive Event
  | receive (x : Received)
  /-- A request of `forget` or `forget_multi`. -/
  | forget (image : Mem)
  /-- A step of one of the two threads; `call` runs `Proxy::Call` until the method is entered. -/
  | move (e : Handoff.Event)
  /-- The method looks into the structure of its `FileInfo`, and stores there what it has to. -/
  | look
  /-- The method replies and returns. -/
  | return
  /-- The callback of a read. -/
  | finish (k : ℕ)

def isRead : NodeFs.Call → Bool
  | .read .. => true
  | _ => false

section Machine

variable {W : Type} (S : Session) (U : Utf8) (V : Platform) (D : DirentFormat) (H : Host W)

/-- `Proxy::Call` with the operation's name and the record. The bound names differ, so there is no more
than one request in it. -/
def callProxy (s : State W) (c : Handoff.Call) : State W :=
  match c.pArgument with
  | .baton => s
  | .record number =>
    match s.handoff.created[number]?, s.received[number]? with
    | some d, some x => { s with
        running := (Proxy.call c.op d.args.raw).head?.map fun r =>
          Running.entered ⟨number, x.rc, r, s.mem.hold x.block⟩ }
    | _, _ => s

/-- What the method replies, with the file information as it stored it. -/
def replies (nodefs : NodeFs.State W) (rc : ℕ → ℤ) (call : NodeFs.Call) : List FuseReply :=
  (NodeFs.serve V D H rc call nodefs.tree nodefs.world).reply.sent

/-- The handle that `open` and `create` store is in what they reply. -/
def storedBy (m : Mem) (r : Request) (sent : List FuseReply) : Mem :=
  match r.fileInfo?, (sent.filterMap ReplyMethods.sentFileInfo).head? with
  | some p, some fi => { m with fileInfo := Function.update m.fileInfo p fi }
  | _, _ => m

/-- libfuse sends what the structure holds by then. -/
def sentWith (m : Mem) (r : Request) (sent : List FuseReply) : List FuseReply :=
  match r.fileInfo? with
  | some p => sent.map (FuseReply.withFileInfo (m.fileInfo p))
  | none => sent

/-- `fs.read` is passed the handle and the method returns. -/
def look (s : State W) (x : Called) : State W :=
  match enter U (x.invocation S s.mem) with
  | some (req, call) =>
    if isRead call then
      { s with running := none, reading := s.reading ++ [⟨x.number, x.rc, req, call⟩] }
    else { s with
      running := some (.looked x req call)
      mem := storedBy s.mem x.request (replies V D H s.conversation.nodefs x.rc call) }
  | none => { s with running := none, handled := s.handled ++ [x.number] }

def step (s : State W) : Event → Option (State W)
  | .receive x =>
    (Handoff.step s.handoff (.arrive x.copy x.request)).map fun handoff => { s with
      handoff, mem := x.image, received := s.received ++ [x] }
  | .forget image => if s.handoff.worker = .idle then some { s with mem := image } else none
  | .move e =>
    if e.isArrival ∨ (e.isLoops ∧ s.running.isSome) then none
    else (Handoff.step s.handoff e).map fun handoff =>
      (handoff.calls.drop s.handoff.calls.length).foldl callProxy { s with handoff }
  | .look =>
    match s.running with
    | some (.entered x) => some (look S U V D H s x)
    | _ => none
  | .return =>
    match s.running with
    | some (.looked x req call) => some { s with
        running := none
        conversation := {
          nodefs := NodeFs.next V D H s.conversation.nodefs ⟨call, x.rc⟩
          replies := s.conversation.replies
            ++ [(req, sentWith s.mem x.request (replies V D H s.conversation.nodefs x.rc call))] }
        handled := s.handled ++ [x.number] }
    | _ => none
  | .finish k =>
    if s.running.isSome then none
    else (s.reading[k]?).map fun r => { s with
      conversation := s.conversation.take V D H r.rc (some (r.req, r.call))
      reading := s.reading.eraseIdx k
      handled := s.handled ++ [r.number] }

/-! ## One request at a time -/

/-- The request of the number is handled, by itself, with the memory as it was received. -/
def atOnce (received : List Received) (c : Conversation W) (number : ℕ) : Conversation W :=
  match received[number]? with
  | some x => c.take V D H x.rc (enter U (x.request.invocation S x.image))
  | none => c

/-- The request is a read. -/
def Postponed (received : List Received) (number : ℕ) : Prop :=
  ∃ x ∈ received[number]?, ∃ req call, enter U (x.request.invocation S x.image) = some (req, call)
    ∧ isRead call

/-- The requests whose method or callback has not ended yet. -/
def underWay (s : State W) : List ℕ :=
  s.reading.map Reading.number ++ s.running.toList.map fun r => r.called.number

/-- Every call took effect one at a time, in the order of the requests but for reads, which may have
been overtaken; and those that are missing are under way. -/
structure OneAtATime (w : W) (s : State W) : Prop where
  all : (s.handled ++ underWay s).Perm (List.range s.handoff.calls.length)
  order : s.handled.Pairwise fun i j => i < j ∨ Postponed S U s.received j
  effect : s.conversation = s.handled.foldl (atOnce S U V D H s.received) (.init w)

/-- The request of the number is replied to once, if its method is one to reply. -/
def RepliedOnce (received : List Received) (c : Conversation W) (number : ℕ) : Prop :=
  ∀ x ∈ received[number]?, ∀ req call,
    enter U (x.request.invocation S x.image) = some (req, call) →
      NodeFs.RepliesOnce V H c.nodefs ⟨call, x.rc⟩

/-- The memory as libfuse receives something into it. -/
def Event.image? : Event → Option Mem
  | .receive x => some x.image
  | .forget image => some image
  | .move _ | .look | .return | .finish _ => none

/-- Nothing is received until the method of the request before has returned. -/
def Waits (s : State W) (e : Event) : Prop :=
  e.image?.isSome → s.received.length = s.handoff.calls.length ∧ s.running.isNone

instance (s : State W) (e : Event) : Decidable (Waits s e) := inferInstanceAs (Decidable (_ → _))

/-- The memory shows what the request borrows as it was received. -/
def Kept (m : Mem) (x : Received) : Prop :=
  ∀ c ∈ x.request.borrowed, c.2.read m = c.2.read x.image

/-- What the requests borrow that wait for their call is left as it was. -/
def WaitingKept (s : State W) (m : Mem) : Prop :=
  ∀ x ∈ s.received.drop s.handoff.calls.length, Kept m x

/-- No record is stored under a callback, and what is received, and what a method stores, leaves what
the requests borrow that wait for their call, and what is received also the structure of the method
that runs. -/
structure Orderly (s : State W) (e : Event) : Prop where
  handoff : ∀ e', e = .move e' → Handoff.NoOverwrite s.handoff e'
  waiting : ∀ m ∈ e.image?, WaitingKept s m
  running : ∀ m ∈ e.image?, ∀ r ∈ s.running, ∀ p ∈ r.called.request.fileInfo?,
    m.fileInfo p = s.mem.fileInfo p
  stored : e = .look → ∀ x, s.running = some (.entered x) →
    WaitingKept s (look S U V D H s x).mem

/-- Nothing is under way. -/
structure AtRest (s : State W) : Prop where
  handoff : Handoff.Quiet s.handoff
  running : s.running = none
  reading : s.reading = []

end Machine

end NodeFuse.NodeFsMount
