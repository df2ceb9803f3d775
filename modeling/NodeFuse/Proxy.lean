import NodeFuse.Conversions
import NodeFuse.FileSystem

/-!
# The JavaScript side of an operation

Each function of `proxy.cc` casts the slots of the argument array back (`Proxy.lookup` and so on),
makes JavaScript values of them and calls the filesystem's method with these (`invocation`).
`Proxy::Call` picks the function by the operation's name.
-/

namespace NodeFuse

/-! ## Unpacking -/

/-- A slot through `long` into an `int`. -/
def toInt (p : VoidPtr) : Int32 := p.toInt64.toInt32
def toOff (p : VoidPtr) : Int64 := p.toInt64
def toMode (p : VoidPtr) : UInt32 := p.toInt64.toUInt64.toUInt32
/-- A slot through `long` into a `size_t` or a `dev_t`. -/
def toSize (p : VoidPtr) : UInt64 := p.toInt64.toUInt64

/-- What reading a slot of the array gives, or `none` where it may not be read. -/
abbrev Slots := ℕ → Option VoidPtr

namespace Proxy

variable (args : Slots)

def init : Option Request := return .init (← args 0)
def destroy (_ : Slots) : Option Request := some .destroy
def lookup : Option Request := return .lookup (← args 0) (← args 1) (← args 2)
def getAttr : Option Request := return .getAttr (← args 0) (← args 1) (← args 2)
def setAttr : Option Request :=
  return .setAttr (← args 0) (← args 1) (← args 2) (toInt (← args 3)) (← args 4)
def readLink : Option Request := return .readLink (← args 0) (← args 1)
def mkNod : Option Request :=
  return .mkNod (← args 0) (← args 1) (← args 2) (toMode (← args 3)) (toSize (← args 4))
def mkDir : Option Request :=
  return .mkDir (← args 0) (← args 1) (← args 2) (toMode (← args 3))
def unlink : Option Request := return .unlink (← args 0) (← args 1) (← args 2)
def rmDir : Option Request := return .rmDir (← args 0) (← args 1) (← args 2)
def symLink : Option Request := return .symLink (← args 0) (← args 1) (← args 2) (← args 3)
def rename : Option Request :=
  return .rename (← args 0) (← args 1) (← args 2) (← args 3) (← args 4)
def link : Option Request := return .link (← args 0) (← args 1) (← args 2) (← args 3)
def «open» : Option Request := return .open (← args 0) (← args 1) (← args 2)
def read : Option Request :=
  return .read (← args 0) (← args 1) (toSize (← args 2)) (toOff (← args 3)) (← args 4)
def write : Option Request :=
  return .write (← args 0) (← args 1) (← args 2) (toSize (← args 3)) (toOff (← args 4)) (← args 5)
def flush : Option Request := return .flush (← args 0) (← args 1) (← args 2)
def release : Option Request := return .release (← args 0) (← args 1) (← args 2)
def fSync : Option Request := return .fSync (← args 0) (← args 1) (toInt (← args 2)) (← args 3)
def openDir : Option Request := return .openDir (← args 0) (← args 1) (← args 2)
def readDir : Option Request :=
  return .readDir (← args 0) (← args 1) (toSize (← args 2)) (toOff (← args 3)) (← args 4)
def releaseDir : Option Request := return .releaseDir (← args 0) (← args 1) (← args 2)
def fSyncDir : Option Request :=
  return .fSyncDir (← args 0) (← args 1) (toInt (← args 2)) (← args 3)
def statFs : Option Request := return .statFs (← args 0) (← args 1)
def setXAttr : Option Request :=
  return .setXAttr (← args 0) (← args 1) (← args 2) (← args 3) (← args 4) (toInt (← args 5))
def getXAttr : Option Request := return .getXAttr (← args 0) (← args 1) (← args 2) (← args 3)
def listXAttr : Option Request := return .listXAttr (← args 0) (← args 1) (← args 2)
def removeXAttr : Option Request := return .removeXAttr (← args 0) (← args 1) (← args 2)
def access : Option Request := return .access (← args 0) (← args 1) (toInt (← args 2))
def create : Option Request :=
  return .create (← args 0) (← args 1) (← args 2) (toMode (← args 3)) (← args 4)
def getLock : Option Request := return .getLock (← args 0) (← args 1) (← args 2) (← args 3)
def setLock : Option Request :=
  return .setLock (← args 0) (← args 1) (← args 2) (← args 3) (toInt (← args 4))
def bMap : Option Request :=
  return .bMap (← args 0) (← args 1) (toSize (← args 2)) (← args 3)

/-- The functions `Proxy::Call` binds, in its order. The body of `Proxy::Forget` is empty. -/
def bindings : List (String × (Slots → Option Request)) :=
  [("Init", init), ("Destroy", destroy), ("Lookup", lookup), ("Forget", fun _ => none),
    ("GetAttr", getAttr), ("SetAttr", setAttr), ("ReadLink", readLink), ("MkNod", mkNod),
    ("MkDir", mkDir), ("Unlink", unlink), ("RmDir", rmDir), ("SymLink", symLink),
    ("Rename", rename), ("Link", link), ("Open", «open»), ("Read", read), ("Write", write),
    ("Flush", flush), ("Release", release), ("FSync", fSync), ("OpenDir", openDir),
    ("ReadDir", readDir), ("ReleaseDir", releaseDir), ("FSyncDir", fSyncDir), ("StatFs", statFs),
    ("SetXAttr", setXAttr), ("GetXAttr", getXAttr), ("ListXAttr", listXAttr),
    ("RemoveXAttr", removeXAttr), ("Access", access), ("Create", create), ("GetLock", getLock),
    ("SetLock", setLock), ("BMap", bMap)]

/-- `Proxy::Call`: every function bound to the name runs; these are the arguments they get back. -/
def call (op : String) (args : Slots) : List Request :=
  (bindings.filter fun b => op == b.1).filterMap fun b => b.2 args

end Proxy

/-! ## Calling the method -/

/-- What libfuse keeps for as long as a request or the session lives. -/
structure Session where
  ctx : VoidPtr → FuseCtx
  connInfo : VoidPtr → FuseConnInfo
  deriving Inhabited

structure Invocation where
  method : String
  argv : List Value

section Invocation

variable (S : Session) (m : Mem)

def Mem.stringNew (p : VoidPtr) : Value := .string (m.cstr p)

/-- `Buffer::New(char *, size_t)` copies the bytes. -/
def Mem.bufferNew (p : VoidPtr) (size : UInt64) : Value :=
  .buffer ((m.chars p).take size.toNat)

def connInfoToObject (conn : FuseConnInfo) : Value :=
  .object [("proto_major", .int (Integer.new conn.protoMajor.toNat)),
    ("proto_minor", .int (Integer.new conn.protoMinor.toNat)),
    ("async_read", .int (Integer.new conn.asyncRead.toNat)),
    ("max_write", .int (Number.new conn.maxWrite.toNat)),
    ("max_readahead", .int (Number.new conn.maxReadahead.toNat))]

namespace Request

def argv (req : VoidPtr) (middle : List Value) : List Value :=
  requestContextToObject (S.ctx req) :: middle ++ [.reply req]

def num (n : UInt64) : Value := .int (Number.new n.toNat)

def invocation : Request → Invocation
  | .init conn => ⟨"init", [connInfoToObject (S.connInfo conn)]⟩
  | .destroy => ⟨"destroy", []⟩
  | .lookup req parent name => ⟨"lookup", argv S req [num parent, m.stringNew name]⟩
  | .getAttr req ino _ => ⟨"getattr", argv S req [num ino]⟩
  | .setAttr req ino attr toSet _ =>
    ⟨"setattr", argv S req [num ino, getAttrsToBeSet toSet (m.stat attr)]⟩
  | .readLink req ino => ⟨"readlink", argv S req [num ino]⟩
  | .mkNod req parent name mode rdev =>
    ⟨"mknod", argv S req [num parent, m.stringNew name, .int (Integer.new mode.toNat),
      .int (Integer.new rdev.toNat)]⟩
  | .mkDir req parent name mode =>
    ⟨"mkdir", argv S req [num parent, m.stringNew name, .int (Integer.new mode.toNat)]⟩
  | .unlink req parent name => ⟨"unlink", argv S req [num parent, m.stringNew name]⟩
  | .rmDir req parent name => ⟨"rmdir", argv S req [num parent, m.stringNew name]⟩
  | .symLink req target parent name =>
    ⟨"symlink", argv S req [num parent, m.stringNew target, m.stringNew name]⟩
  | .rename req parent name newparent newname =>
    ⟨"rename", argv S req [num parent, m.stringNew name, num newparent, m.stringNew newname]⟩
  | .link req ino newparent newname =>
    ⟨"link", argv S req [num ino, num newparent, m.stringNew newname]⟩
  | .open req ino fi => ⟨"open", argv S req [num ino, .fileInfo (m.fileInfo fi)]⟩
  | .read req ino size off fi =>
    ⟨"read", argv S req [num ino, .int (Integer.new size.toNat), .int (Integer.new off.toInt),
      .fileInfo (m.fileInfo fi)]⟩
  | .write req ino buf size off fi =>
    ⟨"write", argv S req [num ino, m.bufferNew buf size, .int (Integer.new off.toInt),
      .fileInfo (m.fileInfo fi)]⟩
  | .flush req ino fi => ⟨"flush", argv S req [num ino, .fileInfo (m.fileInfo fi)]⟩
  | .release req ino fi => ⟨"release", argv S req [num ino, .fileInfo (m.fileInfo fi)]⟩
  | .fSync req ino datasync fi =>
    ⟨"fsync", argv S req [num ino, .booleanObject (datasync ≠ 0), .fileInfo (m.fileInfo fi)]⟩
  | .openDir req ino fi => ⟨"opendir", argv S req [num ino, .fileInfo (m.fileInfo fi)]⟩
  | .readDir req ino size off fi =>
    ⟨"readdir", argv S req [num ino, .int (Integer.new size.toNat),
      .int (Integer.new off.toInt), .fileInfo (m.fileInfo fi)]⟩
  | .releaseDir req ino fi => ⟨"releasedir", argv S req [num ino, .fileInfo (m.fileInfo fi)]⟩
  | .fSyncDir req ino datasync fi =>
    ⟨"fsyncdir", argv S req [num ino, .booleanObject (datasync ≠ 0), .fileInfo (m.fileInfo fi)]⟩
  | .statFs req ino => ⟨"statfs", argv S req [num ino]⟩
  | .setXAttr req ino name value size flags =>
    ⟨"setxattr", argv S req [num ino, m.stringNew name, m.stringNew value, num size,
      .int (Integer.new flags.toInt)]⟩
  | .getXAttr req ino name size =>
    ⟨"getxattr", argv S req [num ino, m.stringNew name, num size]⟩
  | .listXAttr req ino size => ⟨"listxattr", argv S req [num ino, num size]⟩
  | .removeXAttr req ino name => ⟨"removexattr", argv S req [num ino, m.stringNew name]⟩
  | .access req ino mask => ⟨"access", argv S req [num ino, .int (Integer.new mask.toInt)]⟩
  | .create req parent name mode fi =>
    ⟨"create", argv S req [num parent, m.stringNew name, .int (Integer.new mode.toNat),
      .fileInfo (m.fileInfo fi)]⟩
  | .getLock req ino fi lock =>
    ⟨"getlk", argv S req [num ino, .fileInfo (m.fileInfo fi), flockToObject (m.flock lock)]⟩
  | .setLock req ino fi lock sleep =>
    ⟨"setlk", argv S req [num ino, .fileInfo (m.fileInfo fi), flockToObject (m.flock lock),
      .int (Integer.new sleep.toInt)]⟩
  | .bMap req ino blocksize idx =>
    ⟨"bmap", argv S req [num ino, .int (Integer.new blocksize.toNat),
      .int (Integer.new idx.toNat)]⟩

end Request

def Proxy.invocations (d : ThreadFunData) : List Invocation :=
  (Proxy.call d.op d.args.raw).map fun r => r.invocation S m

end Invocation

end NodeFuse
