import NodeFuse.FileSystem
import NodeFuse.Lib.Runs

/-!
# Handing a request to the loop thread

A mount has two parties: the worker thread, in which libfuse runs the operations one after another,
and the loop thread, which runs JavaScript. They share one `uv_async_t`. `FileSystem::Proxy` waits
for `pending` to differ from 1, stores its record in `data` and sends; libuv, on finding `pending`
set, clears it and then calls `Fuse::AsyncCallback`, which reads `data` twice. Each of these is a
step of its own.
-/

namespace NodeFuse

/-- What `data` points to: `Fuse::Mount` stores the baton, `FileSystem::Proxy` its records. The
records are numbered in the order they were created. -/
inductive Slot
  | baton
  | record (i : ℕ)
  deriving DecidableEq

structure Async where
  pending : ℕ
  data : Slot
  deriving DecidableEq

/-- `uv_async_send`: on a pending handle it changes nothing. -/
def Async.send (async : Async) : Async := { async with pending := 1 }

namespace Handoff

/-- Where the worker is in `FileSystem::Proxy`. -/
inductive Worker
  | idle
  | waiting (d : ThreadFunData)
  /-- Past the loop: the record is still to be created and stored in `data`. -/
  | writing (d : ThreadFunData)
  | sending
  deriving DecidableEq

inductive Loop
  | polling
  /-- `pending` is cleared and the callback about to start. -/
  | cleared
  | named (argument : Slot)
  deriving DecidableEq

structure Call where
  op : String
  pArgument : Slot
  deriving DecidableEq

structure State where
  async : Async
  worker : Worker
  loop : Loop
  /-- The records as `FileSystem::Proxy` filled them. `State.freed` are those deleted since. -/
  created : List ThreadFunData
  calls : List Call
  sends : ℕ
  callbacks : ℕ
  deriving DecidableEq

def State.init : State := ⟨⟨0, .baton⟩, .idle, .polling, [], [], 0, 0⟩

namespace State

def opOf (s : State) : Slot → Option String
  | .baton => none
  | .record i => s.created[i]?.map ThreadFunData.op

def records (s : State) : List Slot := (List.range s.created.length).map Slot.record

end State

inductive Event
  /-- A request reaches the worker, whose operation calls `FileSystem::Proxy`. -/
  | arrive (copy : VoidPtr) (r : Request)
  | test | write | send | clear | readOp | call
  deriving DecidableEq

def step (s : State) : Event → Option State
  | .arrive copy r =>
    if s.worker = .idle then some { s with worker := .waiting (FileSystem.serve copy r) } else none
  | .test =>
    match s.worker with
    | .waiting d => some (if s.async.pending = 1 then s else { s with worker := .writing d })
    | _ => none
  | .write =>
    match s.worker with
    | .writing d => some { s with
        async := { s.async with data := .record s.created.length }
        created := s.created ++ [d]
        worker := .sending }
    | _ => none
  | .send =>
    if s.worker = .sending then
      some { s with async := s.async.send, worker := .idle, sends := s.sends + 1 }
    else none
  | .clear =>
    if s.loop = .polling ∧ s.async.pending = 1 then
      some { s with
        async := { s.async with pending := 0 }
        loop := .cleared
        callbacks := s.callbacks + 1 }
    else none
  | .readOp =>
    if s.loop = .cleared then some { s with loop := .named s.async.data } else none
  | .call =>
    match s.loop with
    | .named argument => (s.opOf argument).map fun op => { s with
        calls := s.calls ++ [⟨op, s.async.data⟩]
        loop := .polling }
    | _ => none

/-! ## What the parties should keep -/

/-- No record is lost, delivered twice or delivered out of order. -/
def Ordered (s : State) : Prop := s.calls.map Call.pArgument <+: s.records

/-- Every call named the operation of the record it was given. -/
def Paired (s : State) : Prop := ∀ c ∈ s.calls, s.opOf c.pArgument = some c.op

/-- A record is stored only while no callback is under way. A callback is under way from the clearing
of `pending` to its second read of `data`: the handler that it calls then may be overtaken. -/
def NoOverwrite (s : State) (e : Event) : Prop := e = .write → s.loop = .polling

def Loop.argument? : Loop → Option Slot
  | .named argument => some argument
  | _ => none

def Worker.op? : Worker → Option String
  | .waiting d | .writing d => some d.op
  | _ => none

/-- A record that is stored between the two reads of `data` is of the operation read already. -/
def OpKept (s : State) (e : Event) : Prop :=
  e = .write → ∀ argument ∈ s.loop.argument?, s.opOf argument = s.worker.op?

/-- libuv does not merge the send with one before it. -/
def NotMerged (s : State) (e : Event) : Prop := e = .send → s.async.pending ≠ 1

/-! ## What they keep whatever the order -/

/-- The calls were passed the records in the order of their creation, and none more than twice. -/
structure InTurn (s : State) : Prop where
  order : ∃ ds : List ℕ, s.calls.map Call.pArgument = ds.map Slot.record ∧ ds.Pairwise (· ≤ ·)
  twice : ∀ i, (s.calls.map Call.pArgument).count (.record i) ≤ 2

/-- Nothing is under way. -/
structure Quiet (s : State) : Prop where
  worker : s.worker = .idle
  loop : s.loop = .polling
  pending : s.async.pending = 0

def Event.isArrival : Event → Bool
  | .arrive .. => true
  | _ => false

/-- A step of the loop thread. -/
def Event.isLoops : Event → Bool
  | .clear | .readOp | .call => true
  | .arrive .. | .test | .write | .send => false

/-! ## Records that are deleted -/

/-- `FREE_ARGUMENTS` deletes the record and its array. `Proxy::Init` and `Proxy::Destroy` end without
it, and the body of `Proxy::Forget` is empty. -/
def freesArguments (op : String) : Bool := op ∉ ["Init", "Destroy", "Forget"]

def State.freed (s : State) : List Slot :=
  (s.calls.filter fun c => freesArguments c.op).map Call.pArgument

/-- The record's proxy deletes it. -/
def State.deletes (s : State) (r : Slot) : Bool := (s.opOf r).any freesArguments

/-- A callback that starts finds a record in `data` that is not deleted yet. -/
def Undeleted (s : State) (e : Event) : Prop := e = .readOp → s.async.data ∉ s.freed

/-- What a callback reads the operation from and what it unpacks are not deleted yet. -/
def Alive (s : State) (e : Event) : Prop :=
  e = .call → (∀ argument ∈ s.loop.argument?, argument ∉ s.freed) ∧ s.async.data ∉ s.freed

/-- The request's proxy deletes its record. -/
def Event.Freed : Event → Prop
  | .arrive copy r => freesArguments (FileSystem.serve copy r).op
  | _ => True

instance (s : State) : Decidable (Ordered s) := inferInstanceAs (Decidable (_ <+: _))
instance (s : State) : Decidable (Paired s) := inferInstanceAs (Decidable (∀ c ∈ s.calls, _))
instance (s : State) (e : Event) : Decidable (NoOverwrite s e) :=
  inferInstanceAs (Decidable (_ → _))
instance (s : State) (e : Event) : Decidable (OpKept s e) := inferInstanceAs (Decidable (_ → _))
instance (s : State) (e : Event) : Decidable (Undeleted s e) := inferInstanceAs (Decidable (_ → _))

end Handoff

end NodeFuse
