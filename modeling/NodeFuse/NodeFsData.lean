import NodeFuse.Lib.Runs
import NodeFuse.Lib.Splice
import NodeFuse.NodeFsHandlers

/-!
# The data of a file behind NodeFS

A file of a Linux host that NodeFS opens, reads and writes for the kernel, as a machine. On a descriptor
in append mode `pwrite` appends, wherever it is told to write, and `pread` returns what there is.
-/

namespace NodeFuse.NodeFsData

open NodeFs (Call serve)
open Reply (succeed)
open Splice (slice splice)

/-! ## The file on the host -/

structure File where
  content : List UInt8
  /-- The open descriptors, with the flags `openSync` was given. -/
  opened : List (ℕ × String)

def File.flags (f : File) : Value → Option String
  | .number (.fin fd) => if fd.den = 1 ∧ 0 ≤ fd.num then f.opened.lookup fd.num.toNat else none
  | _ => none

def pwrite (flags : String) (content bytes : List UInt8) (offset : ℤ) : Option (List UInt8) :=
  if flags = "r" then none
  else if flags = "a+" then some (content ++ bytes)
  else some (splice 0 content offset.toNat bytes)

def pread (content : List UInt8) (size : ℕ) (offset : ℤ) : List UInt8 :=
  slice content offset.toNat size

/-- The numbers the host gives to descriptors. -/
structure Descriptors where
  number : ℕ → ℕ
  number_lt : ∀ n, number n < 2 ^ 31

/-- A host with one file, which can be read and written. The modes are those of `nodefs.js`. It lets
`fs.read` read nothing, where node 0.10 throws for a size of 0, and `readFileSync` read a file of any
length, where node throws from 1 GiB on. -/
def host (path : JsString) (N : Descriptors) : Host File where
  fs _ := ⟨fun _ => none, fun p => if p = path then some [] else none, by simp⟩
  statSync _ p := if p = path then some [] else none
  readlinkSync _ _ := none
  readFileSync f p := if p = path then some f.content else none
  mkdirSync _ _ f := (none, f)
  unlinkSync _ f := (none, f)
  rmdir _ f := (false, f)
  linkSync _ _ f := (none, f)
  symlinkSync _ _ f := (none, f)
  renameSync _ _ f := (none, f)
  chmodSync _ _ f := (none, f)
  openSync p flags _ f :=
    if p = path then
      let fd := N.number f.opened.length
      (some (.fin (fd : ℤ)),
        ⟨if flags = "w+" then [] else f.content, (fd, flags) :: f.opened⟩)
    else (none, f)
  writeSync fd bytes offset f :=
    match (f.flags fd).bind fun flags => pwrite flags f.content bytes offset with
    | some content => (some bytes.length, { f with content })
    | none => (none, f)
  read fd size offset f := some (if (f.flags fd).isSome then pread f.content size offset else [])
  joinUndefined _ := none

/-! ## The kernel's requests -/

/-- What NodeFS runs on, with a file that an inode leads to. -/
structure Target where
  platform : Platform
  format : DirentFormat
  descriptors : Descriptors
  tree : Tree
  inode : UInt64
  path : JsString
  found : tree (Number.new inode.toNat) = some path

structure State where
  file : File
  /-- The handles the kernel was given. -/
  handles : List UInt64

def State.init (content : List UInt8) : State := ⟨⟨content, []⟩, []⟩

abbrev Offset := {n : ℕ // n < 2 ^ 31}

/-- The requests; `read` and `write` carry the file information of a handle. -/
inductive Event
  | open (fi : FuseFileInfo)
  | write (fi : FuseFileInfo) (bytes : List UInt8) (offset : Offset)
  | read (fi : FuseFileInfo) (size : UInt64) (offset : Offset)

namespace Event

/-- The call `proxy.cc` makes of a request. -/
def call (inode : UInt64) : Event → Call
  | .open fi => .open (Number.new inode.toNat) fi
  | .write fi bytes offset => .write (Number.new inode.toNat) bytes (Integer.new offset.1) fi
  | .read fi size offset => .read (Integer.new size.toNat) (Integer.new offset.1) fi

/-- A request can be made with a handle the kernel was given. -/
def Possible (handles : List UInt64) : Event → Prop
  | .open _ => True
  | .write fi _ _ | .read fi _ _ => fi.fh ∈ handles

instance (handles : List UInt64) : DecidablePred (Possible handles)
  | .open _ => isTrue trivial
  | .write fi _ _ => inferInstanceAs (Decidable (fi.fh ∈ handles))
  | .read fi _ _ => inferInstanceAs (Decidable (fi.fh ∈ handles))

end Event

section Machine

variable (T : Target)

def served (s : State) (e : Event) : NodeFs.Served File :=
  serve T.platform T.format (host T.path T.descriptors) succeed (e.call T.inode) T.tree s.file

def handleIn : FuseReply → Option UInt64
  | .open fi => some fi.fh
  | _ => none

def next (s : State) (e : Event) : State :=
  ⟨(served T s e).world, s.handles ++ ((served T s e).reply.sent.head?.bind handleIn).toList⟩

def step (s : State) (e : Event) : Option State :=
  if e.Possible s.handles then some (next T s e) else none

/-! ## A byte array -/

/-- The bytes after a request. -/
def after (content : List UInt8) : Event → List UInt8
  | .write _ bytes offset => splice 0 content offset.1 bytes
  | .open _ | .read _ _ _ => content

/-- The bytes that a read is answered with. -/
def answer (content : List UInt8) : Event → Option (List UInt8)
  | .read _ size offset => some (slice content offset.1 size.toNat)
  | .open _ | .write _ _ _ => none

/-- A request that can be made does to the file what it does to a byte array. -/
def ActsAsArray (s : State) (e : Event) : Prop :=
  ∀ s' ∈ step T s e, s'.file.content = after s.file.content e
    ∧ ∀ bytes ∈ answer s.file.content e, (served T s e).reply.sent = [.buf bytes]

/-- A write is of nothing or at the end, and a read is of no more than there is: the number that
`Integer::New` makes of its size is that of the bytes to be read. -/
def InBounds (s : State) (e : Event) : Prop :=
  e.Possible s.handles →
    match e with
    | .open _ => True
    | .write _ bytes offset => bytes = [] ∨ offset.1 = s.file.content.length
    | .read _ size offset =>
      Integer.new size.toNat = (min size.toNat (s.file.content.length - offset.1) : ℕ)

end Machine

end NodeFuse.NodeFsData
