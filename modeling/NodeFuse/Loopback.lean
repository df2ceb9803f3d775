import NodeFuse.NodeFsCalls

/-!
# Loopback

The other example filesystem, `loopback.js`, serves nothing: its methods reply with what is written in
them, if they find their `Reply` where they look for it. What they log is left out.
-/

namespace NodeFuse.Loopback

open NodeFs (numberAt maxDouble)
open Reply (arg addAll buffer requestedSize succeed DirCall)
open ReplyMethods Throwing

abbrev Handler := Throwing Reply Unit

section Methods

variable (V : Platform) (D : DirentFormat) (rc : ℕ → ℤ) (argv : List Value)

/-- A method of the argument that is called `reply`. `undefined` has none. -/
def method (place : ℕ) (m : Method) (args : List Value) : Handler :=
  match arg argv place with
  | .reply _ => fun r =>
    match m.call V rc args r with
    | some (.ok _, r) => (some (), r)
    | some (.error _, r) => (none, r)
    | none => (none, r)
  | _ => throw

def err (place : ℕ) (code : ℤ) : Handler := method V rc argv place .err [.int code]

def entryObject : Value :=
  .object [("inode", .int 1234), ("generation", .int 2),
    ("attr", .object [("dev", .int 234881026), ("ino", .int 13420595), ("mode", .int 33188),
      ("nlink", .int 1), ("uid", .int 501), ("gid", .int 20), ("rdev", .int 0), ("size", .int 11),
      ("blksize", .int 4096), ("blocks", .int 8), ("atime", .int 1331780451475),
      ("mtime", .int 1331780451475), ("ctime", .int 1331780451475)]),
    ("attr_timeout", .int 30), ("entry_timeout", .int 60)]

def lookup : Handler := method V rc argv 3 .entry [entryObject]

def hello : JsString := "Hello World!\n".toList

def attrsObject : Value :=
  .object [("ino", .int 1), ("mode", .int 16877), ("nlink", .int 1), ("size", .int hello.length)]

def getattr : Handler := method V rc argv 2 .attr [attrsObject, .int 1000]

def setattr : Handler := err V rc argv 3 PosixError.EIO
def readlink : Handler := err V rc argv 2 PosixError.EIO
def mknod : Handler := err V rc argv 5 PosixError.ENOENT
def mkdir : Handler := err V rc argv 4 PosixError.EIO
def unlink : Handler := err V rc argv 3 PosixError.EIO
def rmdir : Handler := err V rc argv 3 0
def symlink : Handler := err V rc argv 4 0
def rename : Handler := err V rc argv 5 0
def link : Handler := err V rc argv 4 PosixError.EIO

def «open» : Handler := method V rc argv 3 .open [arg argv 2]

def read : Handler := method V rc argv 5 .buffer [.buffer (JsString.utf8 "hellow world".toList)]

/-- Only a `Buffer` is written, and `undefined` has no length. -/
def write : Handler := do
  let buffer ← ofOption (arg argv 2).buffer?
  method V rc argv 5 .write [.int buffer.length]

def flush : Handler := err V rc argv 3 0
def release : Handler := err V rc argv 3 0
def fsync : Handler := err V rc argv 4 0

def opendir : Handler := method V rc argv 3 .open [arg argv 2]

def entries : List JsString := [['.'], ['.', '.'], "dir1".toList, "dir2".toList]

/-- What `addDirEntry` is called with for an entry and its place, but for the size. -/
def callAt (offset : ℤ) (entry : JsString × ℕ) : DirCall :=
  ⟨entry.1.utf8, .object [("inode", .int entry.2)], .fin (offset + entry.2 : ℤ), [], rfl⟩

def calls (offset : ℤ) : List DirCall := entries.zipIdx.map (callAt offset)

def readdir : Handler := do
  let size ← ofOption (numberAt argv 2)
  let offset ← ofOption (numberAt argv 3)
  match arg argv 5 with
  | .reply _ => modify fun reply => (buffer V.toRuntime rc [.buffer []]
    (addAll V.toRuntime D rc (.fin size) (calls offset) reply)).2
  | _ => throw

def releasedir : Handler := err V rc argv 3 0
def fsyncdir : Handler := err V rc argv 4 0

def statvfs : Value :=
  .object [("bsize", .int 1024), ("frsize", .int 0), ("blocks", .int 0), ("bfree", .int 0),
    ("bavail", .int 0), ("files", .int 5), ("ffree", .int 2), ("favail", .int 2),
    ("fsid", .int 4294967295), ("flag", .int 0), ("namemax", .number maxDouble)]

def statfs : Handler := method V rc argv 2 .statfs [statvfs]

/-- On Linux the `Reply` is the argument before, `position`. -/
def setxattr : Handler := err V rc argv 7 0
/-- Here too. -/
def getxattr : Handler := err V rc argv 5 0
def listxattr : Handler := err V rc argv 3 0
def removexattr : Handler := err V rc argv 3 0
def access : Handler := err V rc argv 3 0
def create : Handler := err V rc argv 5 0
def getlk : Handler := err V rc argv 4 0
def setlk : Handler := err V rc argv 5 0

/-- `Reply` has no method `bmap`. -/
def bmap : Handler := throw

/-- The method of the name. `init`, `destroy` and `forget` only log. -/
def handle : String → Handler
  | "lookup" => lookup V rc argv
  | "getattr" => getattr V rc argv
  | "setattr" => setattr V rc argv
  | "readlink" => readlink V rc argv
  | "mknod" => mknod V rc argv
  | "mkdir" => mkdir V rc argv
  | "unlink" => unlink V rc argv
  | "rmdir" => rmdir V rc argv
  | "symlink" => symlink V rc argv
  | "rename" => rename V rc argv
  | "link" => link V rc argv
  | "open" => Loopback.open V rc argv
  | "read" => read V rc argv
  | "write" => write V rc argv
  | "flush" => flush V rc argv
  | "release" => release V rc argv
  | "fsync" => fsync V rc argv
  | "opendir" => opendir V rc argv
  | "readdir" => readdir V D rc argv
  | "releasedir" => releasedir V rc argv
  | "fsyncdir" => fsyncdir V rc argv
  | "statfs" => statfs V rc argv
  | "setxattr" => setxattr V rc argv
  | "getxattr" => getxattr V rc argv
  | "listxattr" => listxattr V rc argv
  | "removexattr" => removexattr V rc argv
  | "access" => access V rc argv
  | "create" => create V rc argv
  | "getlk" => getlk V rc argv
  | "setlk" => setlk V rc argv
  | "bmap" => bmap
  | _ => pure ()

end Methods

variable (V : Platform) (D : DirentFormat)

/-- The replies to a request, whose proxy makes the invocation. -/
def replies (rc : ℕ → ℤ) (i : Invocation) : List FuseReply :=
  (final (handle V D rc i.argv i.method) .new).sent

def entriesSize : ℕ := Packing.total (fun name => direntSize (JsString.utf8 name).length) entries

/-- The methods that have nothing to reply with: they are passed no `Reply`, look for it in the wrong
place, or call what it does not have. -/
def FindsNoReply : Request → Prop
  | .init _ | .destroy | .setXAttr .. | .getXAttr .. | .bMap .. => True
  | _ => False

/-- The four entries do not fit in a reply. -/
def Overflows : Request → Prop
  | .readDir _ _ size _ _ => requestedSize V.toRuntime (.fin (Integer.new size.toNat)) < entriesSize
  | _ => False

/-- The entries the kernel reads in the first reply. -/
def entriesIn : List FuseReply → List Entry
  | .buf bytes :: _ => D.decode bytes
  | _ => []

/-- What the kernel receives with so many requests for the entries of a directory, each from where the
last entry before points to. A reply without entries is the end. -/
def received (S : Session) (m : Mem) (req : VoidPtr) (ino : UInt64) (fi : VoidPtr) (size : UInt64) :
    ℕ → Int64 → List Entry
  | 0, _ => []
  | n + 1, off =>
    let es := entriesIn D
      (replies V D succeed ((Request.readDir req ino size off fi).invocation S m))
    es ++ es.getLast?.elim [] fun last => received S m req ino fi size n last.off

end NodeFuse.Loopback
