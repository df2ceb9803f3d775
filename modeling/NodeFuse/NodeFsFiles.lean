import NodeFuse.NodeFsData

/-!
# Many files behind NodeFS

The files of a Linux host with the requests of `NodeFsData`, each now for an inode. A descriptor is of
the file it was opened for, no two have one number, and there is an end to the numbers.
-/

namespace NodeFuse.NodeFsFiles

open NodeFs (Call serve)
open NodeFsData (pwrite pread handleIn)
open Reply (succeed)

/-! ## The files on the host -/

structure Files where
  content : JsString → Option (List UInt8)
  /-- The open descriptors, with their files and the flags `openSync` was given. -/
  opened : List (ℕ × JsString × String)

def Files.find (f : Files) : Value → Option (JsString × String)
  | .number (.fin fd) => if fd.den = 1 ∧ 0 ≤ fd.num then f.opened.lookup fd.num.toNat else none
  | _ => none

/-- The bytes of a file, none where there is no file. -/
def Files.bytes (f : Files) (path : JsString) : List UInt8 := (f.content path).getD []

/-- What opening a file leaves in it. Only `r` does not create it. -/
def openedContent (flags : String) : Option (List UInt8) → Option (List UInt8)
  | some content => some (if flags = "w+" then [] else content)
  | none => if flags = "r" then none else some []

/-- The numbers the host gives to descriptors, as long as it has some left. -/
structure Descriptors where
  number : ℕ → Option ℕ
  number_lt : ∀ n, ∀ fd ∈ number n, fd < 2 ^ 31
  number_inj : ∀ m n, ∀ fd ∈ number m, fd ∈ number n → m = n

def Files.open (N : Descriptors) (f : Files) (path : JsString) (flags : String) :
    Option Num × Files :=
  match N.number f.opened.length, openedContent flags (f.content path) with
  | some fd, some content => (some (.fin (fd : ℤ)),
    ⟨Function.update f.content path (some content), (fd, path, flags) :: f.opened⟩)
  | _, _ => (none, f)

def Files.write (f : Files) (fd : Value) (bytes : List UInt8) (offset : ℤ) : Option Files := do
  let (path, flags) ← f.find fd
  let content ← pwrite flags (f.bytes path) bytes offset
  return { f with content := Function.update f.content path (some content) }

theorem entryName_of_none (_ : JsString) (names : List JsString)
    (h : (none : Option (List JsString)) = some names) : ∀ name ∈ names, EntryName name.utf8 := by
  cases h

/-- A host of nothing but files, which can be read and written, with no more limits than that of
`NodeFsData`. -/
def host (N : Descriptors) : Host Files where
  fs f := ⟨fun _ => none, fun p => if (f.content p).isSome then some [] else none,
    entryName_of_none⟩
  statSync f p := if (f.content p).isSome then some [] else none
  readlinkSync _ _ := none
  readFileSync f p := f.content p
  mkdirSync _ _ f := (none, f)
  unlinkSync _ f := (none, f)
  rmdir _ f := (false, f)
  linkSync _ _ f := (none, f)
  symlinkSync _ _ f := (none, f)
  renameSync _ _ f := (none, f)
  chmodSync _ _ f := (none, f)
  openSync p flags _ f := f.open N p flags
  writeSync fd bytes offset f :=
    match f.write fd bytes offset with
    | some f => (some bytes.length, f)
    | none => (none, f)
  read fd size offset f := some (match f.find fd with
    | some (path, _) => pread (f.bytes path) size offset
    | none => [])
  joinUndefined _ := none

/-! ## The kernel's requests -/

/-- What NodeFS runs on, and the table. -/
structure Target where
  platform : Platform
  format : DirentFormat
  descriptors : Descriptors
  tree : Tree

structure State where
  files : Files
  /-- The handles the kernel was given, each with the file it was given for. -/
  handles : List (UInt64 × JsString)

def State.init (content : JsString → Option (List UInt8)) : State := ⟨⟨content, []⟩, []⟩

def State.handlesOf (s : State) (path : JsString) : List UInt64 :=
  (s.handles.filter fun h => h.2 = path).map Prod.fst

structure Event where
  inode : UInt64
  request : NodeFsData.Event

section Machine

variable (T : Target)

/-- The file that the request is for. -/
def Target.file (e : Event) : Option JsString := T.tree (Number.new e.inode.toNat)

/-- There is such a file, and the kernel was given the handle for it. -/
def Possible (s : State) (e : Event) : Prop :=
  ∃ path ∈ T.file e, e.request.Possible (s.handlesOf path)

instance (s : State) (e : Event) : Decidable (Possible T s e) :=
  inferInstanceAs (Decidable (∃ path ∈ T.file e, e.request.Possible (s.handlesOf path)))

def served (s : State) (e : Event) : NodeFs.Served Files :=
  serve T.platform T.format (host T.descriptors) succeed (e.request.call e.inode) T.tree s.files

def next (s : State) (e : Event) : State :=
  ⟨(served T s e).world, s.handles ++ ((served T s e).reply.sent.head?.bind fun msg => do
    return (← handleIn msg, ← T.file e)).toList⟩

def step (s : State) (e : Event) : Option State := if Possible T s e then some (next T s e) else none

/-! ## Byte arrays -/

/-- A request that can be made does to its file what it does to a byte array, and nothing to the
others. -/
def ActsOnItsFile (s : State) (e : Event) : Prop :=
  ∀ s' ∈ step T s e, ∀ path ∈ T.file e,
    s'.files.bytes = Function.update s.files.bytes path
        (NodeFsData.after (s.files.bytes path) e.request)
      ∧ ∀ bytes ∈ NodeFsData.answer (s.files.bytes path) e.request,
        (served T s e).reply.sent = [.buf bytes]

/-- A write is of nothing or at the end of its file, and a read is of no more than there is in it. -/
def InBounds (s : State) (e : Event) : Prop :=
  Possible T s e → ∀ path ∈ T.file e,
    match e.request with
    | .open _ => True
    | .write _ bytes offset => bytes = [] ∨ offset.1 = (s.files.bytes path).length
    | .read _ size offset =>
      Integer.new size.toNat = (min size.toNat ((s.files.bytes path).length - offset.1) : ℕ)

/-- What the requests for the file make of its bytes. -/
def bytesAfter (path : JsString) (es : List Event) (bytes : List UInt8) : List UInt8 :=
  (es.filter fun e => T.file e = some path).foldl
    (fun bytes e => NodeFsData.after bytes e.request) bytes

end Machine

end NodeFuse.NodeFsFiles
