import NodeFuse.Proxy

/-!
# Forgetting inodes

`FileSystem::Forget` and `FileSystem::ForgetMulti`. The kernel gets no answer to these messages, so
their requests are released by `fuse_reply_none`. A request is known by the number of its message.
-/

namespace NodeFuse

/-- `struct fuse_forget_data`. -/
structure FuseForgetData where
  ino : UInt64
  nlookup : UInt64
  deriving DecidableEq

namespace Forget

inductive Message
  | forget (data : FuseForgetData)
  | forgetMulti (forgets : List FuseForgetData)
  deriving DecidableEq

/-- The pairs the kernel sent with a message. -/
def Message.forgets : Message → List FuseForgetData
  | .forget data => [data]
  | .forgetMulti forgets => forgets

def Message.isBatch : Message → Bool
  | .forget _ => false
  | .forgetMulti _ => true

structure State where
  arrived : ℕ
  /-- The requests passed to `fuse_reply_none`. -/
  released : List ℕ
  posted : List ThreadFunData
  deriving DecidableEq

def State.init : State := ⟨0, [], []⟩

def fuseReplyNone (req : ℕ) (s : State) : State := { s with released := s.released ++ [req] }

/-- The body is a comment, `fuse_reply_none(req)`. -/
def forget (_req : ℕ) (_ino _nlookup : UInt64) (s : State) : State := s

def forgetMulti (req : ℕ) (forgets : List FuseForgetData) (s : State) : State :=
  fuseReplyNone req (forgets.foldl (fun s data => forget req data.ino data.nlookup s) s)

def serve (req : ℕ) (s : State) : Message → State
  | .forget data => forget req data.ino data.nlookup s
  | .forgetMulti forgets => forgetMulti req forgets s

def receive (s : State) (x : Message) : State :=
  { serve s.arrived s x with arrived := s.arrived + 1 }

def run (xs : List Message) : State := xs.foldl receive .init

/-! ## Counts -/

/-- The count a call passes to the method `forget` for the inode. -/
def nlookup (ino : UInt64) (i : Invocation) : ℚ :=
  if i.method = "forget" then
    match i.argv with
    | _ :: .number node :: .number (.fin count) :: _ =>
      if node = .fin (Number.new ino.toNat : ℤ) then count else 0
    | _ => 0
  else 0

/-- What the method `forget` is passed in all for the inode. -/
def passed (S : Session) (m : Mem) (ino : UInt64) (s : State) : ℚ :=
  ((s.posted.flatMap (Proxy.invocations S m)).map (nlookup ino)).sum

/-- What the kernel sent in all for the inode. -/
def sent (ino : UInt64) (xs : List Message) : ℕ :=
  (((xs.flatMap Message.forgets).filter (·.ino = ino)).map (·.nlookup.toNat)).sum

/-- Every request was released once, and the counts were passed on. -/
def Conserved (S : Session) (m : Mem) (xs : List Message) : Prop :=
  (∀ i < xs.length, (run xs).released.count i = 1)
    ∧ ∀ ino, passed S m ino (run xs) = sent ino xs

end Forget

end NodeFuse
