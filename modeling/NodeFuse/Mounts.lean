import Mathlib.Data.Nat.Notation
import Mathlib.Logic.Function.Basic
import NodeFuse.FileSystem
import NodeFuse.Lib.Runs

/-!
# Several mounts

`Fuse::Mount` stores its `Fuse` object in the static `CI`, makes the filesystem object and starts a
worker, which stores that object in the `fsobj` of its `Fuse`. `Fuse::AsyncCallback` takes the `Fuse`
object from `CI` and the filesystem from its `fsobj`: for the method, for the receiver of the call and,
once the method has returned, in `Event::Emit` for `notice` and the receiver of its call. A `Fuse`
object is a number, and so is a mount call: its place among the calls, which also names its worker and
the filesystem object it made.
-/

namespace NodeFuse

/-- The proxy of the request ends with `Event::Emit`. -/
def Request.emits : Request → Bool
  | .init _ | .destroy => false
  | _ => true

namespace Mounts

/-- Where the loop thread is with a request of the mount `k`. -/
inductive Loop
  | polling
  /-- The method is read and the call still to be made. -/
  | calling (k fuse : ℕ) (r : Request)
  /-- The method has been called, and `Event::Emit` is still to come. -/
  | called (k fuse : ℕ)
  /-- `notice` is read and the call still to be made. -/
  | noticing (k fuse : ℕ)
  deriving DecidableEq

/-- JavaScript may run, and may mount. -/
def Loop.inScript : Loop → Bool
  | .polling | .called .. => true
  | .calling .. | .noticing .. => false

/-- The mount that a request under way is of, and the `Fuse` object taken for it. -/
def Loop.serving? : Loop → Option (ℕ × ℕ)
  | .calling k fuse _ | .called k fuse | .noticing k fuse => some (k, fuse)
  | .polling => none

structure Access where
  mount : ℕ
  fsobj : Option ℕ
  deriving DecidableEq

structure State where
  /-- The `Fuse` object of each mount call. -/
  mounts : List ℕ
  /-- The mounts whose worker has started, the last one first. -/
  started : List ℕ
  ci : Option ℕ
  fsobj : ℕ → Option ℕ
  waiting : List (ℕ × Request)
  loop : Loop
  accesses : List Access

def State.init : State := ⟨[], [], none, fun _ => none, [], .polling, []⟩

/-- What is done for a request of the mount `k` with the filesystem object that `fuse` has now. -/
def State.access (s : State) (k fuse : ℕ) (loop : Loop) : State :=
  { s with loop := loop, accesses := s.accesses ++ [⟨k, s.fsobj fuse⟩] }

inductive Event
  | mount (fuse : ℕ)
  /-- The worker of a mount stores its filesystem object. -/
  | start (k : ℕ)
  | request (k : ℕ) (r : Request)
  /-- The callback for a request of a mount reads `CI` and looks the method up. -/
  | callback (k : ℕ) (r : Request)
  | invoke
  /-- `Event::Emit` looks `notice` up. -/
  | lookupNotice
  | notify

def step (s : State) : Event → Option State
  | .mount fuse =>
    if s.loop.inScript then some { s with mounts := s.mounts ++ [fuse], ci := some fuse } else none
  | .start k =>
    match s.mounts[k]? with
    | some fuse =>
      if k ∈ s.started then none
      else some { s with
        started := k :: s.started
        fsobj := Function.update s.fsobj fuse (some k) }
    | none => none
  | .request k r =>
    if k ∈ s.started then some { s with waiting := s.waiting ++ [(k, r)] } else none
  | .callback k r =>
    match s.ci with
    | some fuse =>
      if s.loop = .polling ∧ (k, r) ∈ s.waiting then
        some (State.access { s with waiting := s.waiting.erase (k, r) } k fuse (.calling k fuse r))
      else none
    | none => none
  | .invoke =>
    match s.loop with
    | .calling k fuse r => some (s.access k fuse (if r.emits then .called k fuse else .polling))
    | _ => none
  | .lookupNotice =>
    match s.loop with
    | .called k fuse => some (s.access k fuse (.noticing k fuse))
    | _ => none
  | .notify =>
    match s.loop with
    | .noticing k fuse => some (s.access k fuse .polling)
    | _ => none

/-- Every request was dispatched to the filesystem object its mount made, and to no other. -/
def Isolated (s : State) : Prop := ∀ a ∈ s.accesses, a.fsobj = some a.mount

/-- The mount on a `Fuse` object whose worker started last. -/
def State.newest (s : State) (fuse : ℕ) : Option ℕ :=
  s.started.find? fun k => s.mounts[k]? = some fuse

/-- The last mount call was on a `Fuse` object whose last worker is that of the mount the callback is
for, and no other worker starts on it before the last access for the request is made. -/
def Undisplaced (s : State) : Event → Prop
  | .callback k _ => ∀ fuse ∈ s.mounts.getLast?, s.newest fuse = some k
  | .invoke | .lookupNotice | .notify => ∀ x ∈ s.loop.serving?, s.newest x.2 = some x.1
  | .mount _ | .start _ | .request .. => True

instance (s : State) : Decidable (Isolated s) := inferInstanceAs (Decidable (∀ a ∈ s.accesses, _))

instance (s : State) : ∀ e, Decidable (Undisplaced s e)
  | .callback k _ => inferInstanceAs (Decidable (∀ fuse ∈ s.mounts.getLast?, s.newest fuse = some k))
  | .invoke | .lookupNotice | .notify =>
    inferInstanceAs (Decidable (∀ x ∈ s.loop.serving?, s.newest x.2 = some x.1))
  | .mount _ | .start _ | .request .. => inferInstanceAs (Decidable True)

end Mounts

end NodeFuse
