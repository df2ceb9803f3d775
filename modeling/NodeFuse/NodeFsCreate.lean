import NodeFuse.NodeFsData
import NodeFuse.NodeFsRuns

/-!
# Files that NodeFS creates

The file of `NodeFsData`, when it may also be created. `create` opens with `w+`, which empties a file
that is there and writes where it is told, and stores the path under its hash.
-/

namespace NodeFuse.NodeFsCreate

open NodeFs (Call join serve)
open NodeFsData (File Target host)
open Reply (succeed)
open Splice (slice splice)

structure State where
  tree : Tree
  file : File
  /-- The handles the kernel was given. -/
  handles : List UInt64

def State.init (T : Target) (content : List UInt8) : State := ⟨T.tree, ⟨content, []⟩, []⟩

inductive Event
  | create (parent : UInt64) (name : JsString) (mode : UInt32) (fi : FuseFileInfo)
  | data (e : NodeFsData.Event)

/-- The call `proxy.cc` makes of a request. -/
def Event.call (inode : UInt64) : Event → Call
  | .create parent name mode fi =>
    .create (Number.new parent.toNat) name (Integer.new mode.toNat) fi
  | .data e => e.call inode

section Machine

variable (T : Target)

/-- The name is that of the file, or the kernel was given the handle. -/
def Possible (s : State) : Event → Prop
  | .create parent name _ _ =>
    join (host T.path T.descriptors) (s.tree (Number.new parent.toNat)) name = some T.path
  | .data e => e.Possible s.handles

instance (s : State) : DecidablePred (Possible T s)
  | .create _ _ _ _ => inferInstanceAs (Decidable (_ = _))
  | .data e => inferInstanceAs (Decidable (e.Possible s.handles))

def served (s : State) (e : Event) : NodeFs.Served File :=
  serve T.platform T.format (host T.path T.descriptors) succeed (e.call T.inode) s.tree s.file

def handleIn : FuseReply → Option UInt64
  | .open fi | .create _ fi => some fi.fh
  | _ => none

def next (s : State) (e : Event) : State :=
  ⟨(served T s e).tree, (served T s e).world,
    s.handles ++ ((served T s e).reply.sent.head?.bind handleIn).toList⟩

def step (s : State) (e : Event) : Option State := if Possible T s e then some (next T s e) else none

/-! ## A byte array -/

/-- The bytes after a request. -/
def after (content : List UInt8) : Event → List UInt8
  | .create .. => []
  | .data e => NodeFsData.after content e

/-- The bytes that a read is answered with. -/
def answer (content : List UInt8) : Event → Option (List UInt8)
  | .create .. => none
  | .data e => NodeFsData.answer content e

/-- A request that can be made does to the file what it does to a byte array. -/
def ActsAsArray (s : State) (e : Event) : Prop :=
  ∀ s' ∈ step T s e, s'.file.content = after s.file.content e
    ∧ ∀ bytes ∈ answer s.file.content e, (served T s e).reply.sent = [.buf bytes]

/-- A write is of nothing, or at the end, or through a descriptor that `create` opened, and a read is of
no more than there is. -/
def InBounds (s : State) (e : Event) : Prop :=
  Possible T s e →
    match e with
    | .create .. | .data (.open _) => True
    | .data (.write fi bytes offset) => bytes = [] ∨ offset.1 = s.file.content.length
      ∨ s.file.flags (FileInfo.getFileHandle fi) = some "w+"
    | .data (.read _ size offset) =>
      Integer.new size.toNat = (min size.toNat (s.file.content.length - offset.1) : ℕ)

end Machine

end NodeFuse.NodeFsCreate
