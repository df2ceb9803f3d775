import NodeFuse.Fields
import NodeFuse.Proxy
import NodeFuse.Lib.Fifo
import NodeFuse.Lib.Runs

/-!
# Receiving requests into one buffer

libfuse receives every request into the same buffer, and the `fuse_file_info`, `stat` and `flock` it
passes with a request are gone with that call. An operation returns as soon as it has posted its
record, so the next request can be there before JavaScript handles this one. The records go through
a lossless channel, which is what the two parties of a mount hand them over by while no callback is
overtaken (`Handoff`).
-/

namespace NodeFuse

/-! ## What a request points to -/

inductive Cell
  | str (p : VoidPtr)
  /-- The value of an extended attribute, which has no terminator. -/
  | value (p : VoidPtr) (size : UInt64)
  | bytes (p : VoidPtr) (size : UInt64)
  | fileInfo (p : VoidPtr)
  | attrs (toSet : Int32) (p : VoidPtr)
  | lock (p : VoidPtr)

namespace Cell

/-- What the proxies make of it. -/
def read (m : Mem) : Cell → Value
  | .str p | .value p _ => m.stringNew p
  | .bytes p size => m.bufferNew p size
  | .fileInfo p => .fileInfo (m.fileInfo p)
  | .attrs toSet p => getAttrsToBeSet toSet (m.stat p)
  | .lock p => flockToObject (m.flock p)

end Cell

/-- A time in milliseconds. -/
def millis (seconds nanos : Int64) : ℚ := 1000 * seconds.toInt + nanos.toInt / 1000000

namespace SetAttr

/-- The attribute as the kernel sent it. -/
def sent (st : Stat) : SetAttr → Value
  | mode => .int st.mode.toNat
  | uid => .int st.uid.toNat
  | gid => .int st.gid.toNat
  | size => .int st.size.toInt
  | atime => .date (.fin (millis st.atime st.atimeNsec))
  | mtime => .date (.fin (millis st.mtime st.mtimeNsec))

/-- The attribute is passed as it was sent: a number that `Integer::New` keeps, a size that is a double,
a time of whole seconds for which there is a date. -/
def Plain (st : Stat) : SetAttr → Prop
  | mode => st.mode.toNat < 2 ^ 31
  | uid => st.uid.toNat < 2 ^ 31
  | gid => st.gid.toNat < 2 ^ 31
  | size => Double.round st.size.toInt = st.size.toInt
  | atime => |st.atime.toInt| ≤ 8640000000000 ∧ st.atimeNsec = 0
  | mtime => |st.mtime.toInt| ≤ 8640000000000 ∧ st.mtimeNsec = 0

end SetAttr

namespace Cell

/-- What the kernel sent there, its numbers as they are. A `FileInfo` stands for its structure. -/
def sent (m : Mem) : Cell → Value
  | .str p => .string (m.cstr p)
  | .value p size => .string ((m.chars p).take size.toNat)
  | .bytes p size => .buffer ((m.chars p).take size.toNat)
  | .fileInfo p => .fileInfo (m.fileInfo p)
  | .attrs toSet p => .object <| SetAttr.all.flatMap fun a =>
    if toSet &&& a.flag ≠ 0 then [(a.key, a.sent (m.stat p))] else []
  | .lock p => .object [("type", .int (m.flock p).type.toInt),
    ("whence", .int (m.flock p).whence.toInt), ("start", .int (m.flock p).start.toInt),
    ("len", .int (m.flock p).len.toInt), ("pid", .int (m.flock p).pid.toInt)]

variable {σ : Type*} (decode : List UInt8 → σ)

/-- V8, which decodes the bytes of a C string by `decode`, makes the string of no other bytes. -/
def Told : Value → Prop
  | .string utf8 => ∀ w, decode w = decode utf8 → w = utf8
  | _ => True

/-- What was sent there is passed without a loss. -/
def Plain (m : Mem) : Cell → Prop
  | .str p => Told decode (.string (m.cstr p))
  | .value p size => (0 ∉ (m.chars p).take size.toNat ∧ ∀ b ∈ (m.chars p)[size.toNat]?, b = 0)
    ∧ Told decode (.string ((m.chars p).take size.toNat))
  | .bytes _ _ | .fileInfo _ => True
  | .attrs toSet p => ∀ a : SetAttr, toSet &&& a.flag ≠ 0 → a.Plain (m.stat p)
  | .lock p => (-2 ^ 31 ≤ (m.flock p).start.toInt ∧ (m.flock p).start.toInt < 2 ^ 31)
    ∧ (-2 ^ 31 ≤ (m.flock p).len.toInt ∧ (m.flock p).len.toInt < 2 ^ 31)

end Cell

/-- The names, link target, data, attributes, lock and file info of a request, each with its place
among the arguments of the method. -/
def Request.payload : Request → List (ℕ × Cell)
  | .lookup _ _ name | .mkNod _ _ name _ _ | .mkDir _ _ name _ | .unlink _ _ name
  | .rmDir _ _ name | .getXAttr _ _ name _ | .removeXAttr _ _ name => [(2, .str name)]
  | .setAttr _ _ attr toSet _ => [(2, .attrs toSet attr)]
  | .symLink _ target _ name => [(2, .str target), (3, .str name)]
  | .rename _ _ name _ newname => [(2, .str name), (4, .str newname)]
  | .link _ _ _ newname => [(3, .str newname)]
  | .open _ _ fi | .flush _ _ fi | .release _ _ fi | .openDir _ _ fi | .releaseDir _ _ fi =>
    [(2, .fileInfo fi)]
  | .fSync _ _ _ fi | .fSyncDir _ _ _ fi => [(3, .fileInfo fi)]
  | .read _ _ _ _ fi | .readDir _ _ _ _ fi => [(4, .fileInfo fi)]
  | .write _ _ buf size _ fi => [(2, .bytes buf size), (4, .fileInfo fi)]
  | .setXAttr _ _ name value size _ => [(2, .str name), (3, .value value size)]
  | .create _ _ name _ fi => [(2, .str name), (4, .fileInfo fi)]
  | .getLock _ _ fi lock | .setLock _ _ fi lock _ => [(2, .fileInfo fi), (3, .lock lock)]
  | .init _ | .destroy | .getAttr .. | .readLink .. | .statFs .. | .listXAttr .. | .access ..
  | .bMap .. => []

/-- The part of the payload that stays in libfuse's memory: all of it, but for `Lookup`. -/
def Request.borrowed : Request → List (ℕ × Cell)
  | .lookup .. => []
  | r => r.payload

/-- The block an operation allocates for a string of the request, and what it copies there. -/
def FileSystem.block (copy : VoidPtr) (m : Mem) : Request → Option (VoidPtr × List UInt8)
  | .lookup _ _ name => some (copy, m.cstr name ++ [0])
  | _ => none

def Mem.hold (m : Mem) : Option (VoidPtr × List UInt8) → Mem
  | none => m
  | some (a, bytes) => { m with chars := fun p => if p = a then bytes else m.chars p }

namespace Receive

/-- A request as the kernel sent it: the memory is as libfuse received it. -/
structure Sent where
  request : Request
  image : Mem

/-- A record that waits for its callback, with the block its operation allocated. -/
structure Posted where
  sent : Sent
  record : ThreadFunData
  block : Option (VoidPtr × List UInt8)

structure State where
  /-- libfuse's buffer and the structures of the last call. -/
  mem : Mem
  worker : Option Sent
  chan : Fifo Posted
  handed : List (Sent × List Invocation)

def State.init (m : Mem) : State := ⟨m, none, .empty, []⟩

inductive Event
  | receive (image : Mem) (r : Request)
  /-- A request of `forget` or `forget_multi`, for which nothing is posted. -/
  | forget (image : Mem)
  /-- The operation runs and returns; `copy` is what `new` gives `Lookup`. -/
  | post (copy : VoidPtr)
  /-- The callback runs `Proxy::Call` on the oldest record. -/
  | handle

variable (S : Session)

def step (s : State) : Event → Option State
  | .receive image r =>
    if s.worker.isNone then some { s with mem := image, worker := some ⟨r, image⟩ } else none
  | .forget image => if s.worker.isNone then some { s with mem := image } else none
  | .post copy => s.worker.map fun x => { s with
      worker := none
      chan := s.chan.send
        ⟨x, FileSystem.serve copy x.request, FileSystem.block copy s.mem x.request⟩ }
  | .handle => s.chan.receive.map fun (p, chan) => { s with
      chan := chan
      handed := s.handed ++ [(p.sent, Proxy.invocations S (s.mem.hold p.block) p.record)] }

variable {σ : Type*} (decode : List UInt8 → σ)

/-- One method was called for the request, and was given the payload the kernel sent: the values of the
bytes and numbers sent, and strings of no other bytes. -/
def Survived (h : Sent × List Invocation) : Prop :=
  ∃ i, h.2 = [i] ∧ ∀ x ∈ h.1.request.payload,
    i.argv[x.1]? = some (x.2.sent h.1.image) ∧ Cell.Told decode (x.2.sent h.1.image)

/-- The memory shows what a request borrows as it was received. -/
def Kept (m : Mem) (p : Posted) : Prop :=
  ∀ x ∈ p.sent.request.borrowed, x.2.read m = x.2.read p.sent.image

def Event.image? : Event → Option Mem
  | .receive image _ | .forget image => some image
  | _ => none

/-- A request that is received leaves what the waiting ones borrow as it was. -/
def Undisturbed (s : State) (e : Event) : Prop :=
  ∀ m ∈ e.image?, ∀ p ∈ s.chan.queue, Kept m p

def Event.isPost : Event → Bool
  | .post _ => true
  | _ => false

/-- A request that is posted holds nothing that is not passed without a loss. -/
def Plain (s : State) (e : Event) : Prop :=
  e.isPost → ∀ x ∈ s.worker, ∀ c ∈ x.request.payload, c.2.Plain decode x.image

end Receive

end NodeFuse
