import Mathlib.Data.Nat.Notation
import Mathlib.Logic.Function.Basic
import NodeFuse.Lib.Runs

/-!
# What the workers acquire and release

`fuse.js` exports one `Fuse` object. The worker of every mount keeps its argument list, mount point,
channel and session in that object's fields, and whatever it does with them it reads the field again.
Each read and each assignment of a field is a step; a worker is a number, its place among the mount
calls. What a call of libfuse returns is a step later than what it reads.
-/

namespace NodeFuse.Workers

inductive Field
  | fargs | mountpoint | channel | session
  deriving DecidableEq

/-- What a worker does with the content of a field. `fuse_mount`, `fuse_session_add_chan` and
`fuse_unmount` take two. -/
inductive Action
  | parseCmdline | mountPoint | mountArgs | lowlevelNew | setHandlers | addToSession | addChan
  | sessionLoop | removeHandlers | removeChan | sessionDestroy | unmountPoint | unmountChan | freeArgs
  deriving DecidableEq

namespace Action

def field : Action → Field
  | .parseCmdline | .mountArgs | .lowlevelNew | .freeArgs => .fargs
  | .mountPoint | .unmountPoint => .mountpoint
  | .addChan | .removeChan | .unmountChan => .channel
  | .setHandlers | .addToSession | .sessionLoop | .removeHandlers | .sessionDestroy => .session

/-- `fuse_unmount` destroys the channel with the mount, `fuse_session_destroy` the session. -/
def destroys : Action → Bool
  | .sessionDestroy | .unmountPoint | .unmountChan | .freeArgs => true
  | _ => false

/-- It is for the worker to do that created what the field holds: to attach the channel, to run the loop,
to detach and to destroy. -/
def isOwners : Action → Bool
  | .parseCmdline | .mountPoint | .mountArgs | .lowlevelNew | .setHandlers | .removeHandlers => false
  | _ => true

end Action

/-- Where a worker is in `Fuse::AsyncWorker`: what it does next, or what it does with the return. -/
inductive Pc
  | setArgs | setMountpoint | setChannel | checkChannel | setSession | checkSession | checkHandlers
  | act (a : Action)
  | done
  deriving DecidableEq

/-- Each exit goes through the rest of these. -/
def Action.next : Action → Pc
  | .parseCmdline => .setMountpoint
  | .mountPoint => .act .mountArgs
  | .mountArgs => .setChannel
  | .lowlevelNew => .setSession
  | .setHandlers => .checkHandlers
  | .addToSession => .act .addChan
  | .addChan => .act .sessionLoop
  | .sessionLoop => .act .removeHandlers
  | .removeHandlers => .act .removeChan
  | .removeChan => .act .sessionDestroy
  | .sessionDestroy => .act .unmountPoint
  | .unmountPoint => .act .unmountChan
  | .unmountChan => .act .freeArgs
  | .freeArgs => .done

/-- An assignment to a field: of what the worker created, or of `NULL` when it could not. -/
structure Assignment where
  field : Field
  worker : ℕ
  created : Bool
  deriving DecidableEq

structure Use where
  worker : ℕ
  action : Action
  creator : Option ℕ
  deriving DecidableEq

structure State where
  pcs : List Pc
  /-- Who created what a field holds. -/
  content : Field → Option ℕ
  /-- The assignments so far, the last one first. -/
  assigned : List Assignment
  uses : List Use

namespace State

def init : State := ⟨[], fun _ => none, [], []⟩

def goto (s : State) (k : ℕ) (pc : Pc) : State := { s with pcs := s.pcs.set k pc }

def assign (s : State) (f : Field) (k : ℕ) (created : Bool) : State := { s with
  content := Function.update s.content f (if created then some k else none)
  assigned := ⟨f, k, created⟩ :: s.assigned }

def use (s : State) (k : ℕ) (a : Action) : State :=
  { s with uses := s.uses ++ [⟨k, a, s.content a.field⟩] }

/-- The next step of worker `k`. Where a call of libfuse may fail, `ok` says that it did not. -/
def exec (s : State) (k : ℕ) (ok : Bool) : Pc → Option State
  | .setArgs => some ((s.assign .fargs k true).goto k (.act .parseCmdline))
  | .setMountpoint =>
    some (if ok then (s.assign .mountpoint k true).goto k (.act .mountPoint) else s.goto k .done)
  | .setChannel => some ((s.assign .channel k ok).goto k .checkChannel)
  | .checkChannel =>
    some (s.goto k (if s.content .channel = none then .done else .act .lowlevelNew))
  | .setSession => some ((s.assign .session k ok).goto k .checkSession)
  | .checkSession =>
    some (s.goto k (if s.content .session = none then .act .unmountPoint else .act .setHandlers))
  | .checkHandlers => some (s.goto k (if ok then .act .addToSession else .act .sessionDestroy))
  | .act a => some ((s.use k a).goto k a.next)
  | .done => none

def destroyed (s : State) : List (Field × Option ℕ) :=
  (s.uses.filter (·.action.destroys)).map fun u => (u.action.field, u.creator)

def latest (s : State) (f : Field) : Option Assignment := s.assigned.find? (·.field = f)

def action? (s : State) (k : ℕ) : Option Action :=
  match s.pcs[k]? with
  | some (.act a) => some a
  | _ => none

end State

inductive Event
  | mount
  | step (k : ℕ) (ok : Bool)

def step (s : State) : Event → Option State
  | .mount => some { s with pcs := s.pcs ++ [.setArgs] }
  | .step k ok => s.pcs[k]?.bind (s.exec k ok)

/-- Every worker attached, ran its loop on, detached, destroyed, unmounted and freed only what it had
created itself, and nothing was destroyed twice. -/
structure OwnOnly (s : State) : Prop where
  own : ∀ u ∈ s.uses, u.action.isOwners → u.creator = some u.worker
  once : s.destroyed.Nodup

/-- A worker that does with a field what is for its creator to do assigned it last, and not with
`NULL`. -/
def Acquired (s : State) : Event → Prop
  | .mount => True
  | .step k _ => ∀ a ∈ s.action? k, a.isOwners → s.latest a.field = some ⟨a.field, k, true⟩

instance (s : State) : ∀ e, Decidable (Acquired s e)
  | .mount => inferInstanceAs (Decidable True)
  | .step k _ => inferInstanceAs
    (Decidable (∀ a ∈ s.action? k, a.isOwners → s.latest a.field = some ⟨a.field, k, true⟩))

/-! ## A worker by itself -/

/-- A worker that has the fields to itself: its assignments, the last one first, and what it did with
what it created. -/
structure Lone where
  pc : Pc
  assigned : List (Field × Bool)
  acted : List Action
  deriving DecidableEq

namespace Lone

def init : Lone := ⟨.setArgs, [], []⟩

def goto (w : Lone) (pc : Pc) : Lone := { w with pc }

def assign (w : Lone) (f : Field) (created : Bool) : Lone :=
  { w with assigned := (f, created) :: w.assigned }

def has (w : Lone) (f : Field) : Bool := w.assigned.lookup f = some true

def step (w : Lone) (ok : Bool) : Option Lone :=
  match w.pc with
  | .setArgs => some ((w.assign .fargs true).goto (.act .parseCmdline))
  | .setMountpoint =>
    some (if ok then (w.assign .mountpoint true).goto (.act .mountPoint) else w.goto .done)
  | .setChannel => some ((w.assign .channel ok).goto .checkChannel)
  | .checkChannel => some (w.goto (if w.has .channel then .act .lowlevelNew else .done))
  | .setSession => some ((w.assign .session ok).goto .checkSession)
  | .checkSession => some (w.goto (if w.has .session then .act .setHandlers else .act .unmountPoint))
  | .checkHandlers => some (w.goto (if ok then .act .addToSession else .act .sessionDestroy))
  | .act a => some ({ w with acted := w.acted ++ [a] }.goto a.next)
  | .done => none

end Lone

/-- The worker as one by itself. -/
def State.view (s : State) (k : ℕ) : Lone where
  pc := s.pcs.getD k .setArgs
  assigned := (s.assigned.filter (·.worker = k)).map fun x => (x.field, x.created)
  acted := (s.uses.filter (·.worker = k)).map Use.action

/-- The field that the worker's next step depends on. -/
def Pc.reads : Pc → Option Field
  | .checkChannel => some .channel
  | .checkSession => some .session
  | .act a => some a.field
  | _ => none

/-- What a worker reads is what it assigned last. -/
def Undisturbed (s : State) : Event → Prop
  | .mount => True
  | .step k _ => ∀ pc ∈ s.pcs[k]?, ∀ f ∈ pc.reads, ∀ x ∈ s.latest f, x.worker = k

instance (s : State) : ∀ e, Decidable (Undisturbed s e)
  | .mount => inferInstanceAs (Decidable True)
  | .step k _ =>
    inferInstanceAs (Decidable (∀ pc ∈ s.pcs[k]?, ∀ f ∈ pc.reads, ∀ x ∈ s.latest f, x.worker = k))

/-- The steps of the worker. -/
def Event.own (k : ℕ) : Event → Option Bool
  | .mount => none
  | .step k' ok => if k' = k then some ok else none

def Event.isMount : Event → Bool
  | .mount => true
  | .step .. => false

/-- What the worker created. -/
def State.creates (s : State) (k : ℕ) (f : Field) : Prop := ⟨f, k, true⟩ ∈ s.assigned

end NodeFuse.Workers
