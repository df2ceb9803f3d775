import NodeFuse.Lib.Throwing
import NodeFuse.NodeFs
import NodeFuse.ReplyMethods

/-!
# The methods of NodeFS

The methods of `nodefs.js`, on a host that is a state of its own: `Host` is what node's `fs` returns
and does to it. An exception leaves a method where it is thrown, with `tree` and the reply as they are
by then. The callback of `fs.read` runs at once.
-/

namespace NodeFuse

/-! ## The host -/

namespace Value

/-- What an `if` takes the value for. -/
def truthy : Value → Bool
  | .undefined | .null => false
  | .boolean b => b
  | .number x => x ≠ .nan ∧ x ≠ .fin 0
  | .string utf8 => utf8 ≠ []
  | _ => true

end Value

abbrev Stats := List (String × Value)

/-- node's `fs` on a host in a state `W`. What is `none` throws, and whether a directory was removed,
`fs.rmdir` tells nobody. -/
structure Host (W : Type) where
  fs : W → Fs
  statSync : W → JsString → Option Stats
  readlinkSync : W → JsString → Option JsString
  readFileSync : W → JsString → Option (List UInt8)
  mkdirSync : JsString → ℤ → W → Option Value × W
  unlinkSync : JsString → W → Option Value × W
  rmdir : JsString → W → Bool × W
  linkSync : JsString → JsString → W → Option Value × W
  symlinkSync : JsString → JsString → W → Option Value × W
  renameSync : JsString → JsString → W → Option Value × W
  chmodSync : JsString → Value → W → Option Value × W
  openSync : JsString → String → Option ℤ → W → Option Num × W
  writeSync : Value → List UInt8 → ℤ → W → Option ℤ × W
  /-- The bytes that `fs.read` stores in the buffer, `some []` where reading fails: the error goes to the
  callback, which ignores it. Only a call that throws itself is `none`. It changes nothing. -/
  read : Value → ℕ → ℤ → W → Option (List UInt8)
  /-- What `path.join` makes of `undefined` and a name. -/
  joinUndefined : JsString → Option JsString

namespace PosixError

def ENOENT : ℤ := 2
def EIO : ℤ := 5

end PosixError

namespace NodeFs

/-- A request under way: `tree`, the host and the `Reply`. -/
structure Served (W : Type) where
  tree : Tree
  world : W
  reply : Reply

abbrev Handler (W α : Type) := Throwing (Served W) α

section Handlers

open Throwing ReplyMethods

variable {W : Type} (V : Platform) (D : DirentFormat) (H : Host W) (rc : ℕ → ℤ)

/-- `self.tree[inode]`, of which `undefined` is `none`. -/
def pathAt (inode : ℤ) : Handler W (Option JsString) := gets fun s => s.tree inode

def setTree (inode : ℤ) (fspath : JsString) : Handler W Unit :=
  modify fun s => { s with tree := Function.update s.tree inode (some fspath) }

def deleteTree (inode : ℤ) : Handler W Unit :=
  modify fun s => { s with tree := Function.update s.tree inode none }

/-- A call that changes the host. -/
def sync {α : Type} (f : W → Option α × W) : Handler W α := fun s =>
  ((f s.world).1, { s with world := (f s.world).2 })

/-- A call that only looks at it. -/
def look {α : Type} (f : W → Option α) : Handler W α := do
  ofOption (f (← gets Served.world))

def join (dir : Option JsString) (name : JsString) : Option JsString :=
  match dir with
  | some dir => some (Path.join dir name)
  | none => H.joinUndefined name

/-- A method of the reply. An empty handle ends the process. -/
def method (m : Method) (args : List Value) : Handler W Unit := fun s =>
  match m.call V rc args s.reply with
  | some (.ok _, r) => (some (), { s with reply := r })
  | some (.error _, r) => (none, { s with reply := r })
  | none => (none, s)

def err (code : ℤ) : Handler W Unit := method V rc .err [.int code]

def generation : ℤ := 1
def attrTimeout : ℤ := 0
def entryTimeout : ℤ := 0

/-- The object `entry`. -/
def entryObject (inode : ℤ) (stats : Value) : Value :=
  .object [("inode", .int inode), ("attr", stats), ("generation", .int generation),
    ("attr_timeout", .int attrTimeout), ("entry_timeout", .int entryTimeout)]

/-- `stats.ino = inode; stats.inode = inode`. -/
def stamp (inode : ℤ) (stats : Stats) : Value :=
  ((Value.object stats).set "ino" (.int inode)).set "inode" (.int inode)

/-! ## Names and directories -/

def lookup (parent : ℤ) (name : JsString) : Handler W Unit := do
  let fspath ← ofOption (join H (← pathAt parent) name)
  let inode := hash fspath
  match (H.fs (← gets Served.world)).lstatSync fspath with
  | none => err V rc PosixError.ENOENT
  | some stats =>
    method V rc .entry [entryObject inode (.object stats)]
    setTree inode fspath

def mknod : Handler W Unit := err V rc PosixError.ENOENT

def mkdir (parent : ℤ) (name : JsString) (mode : ℤ) : Handler W Unit := do
  let fspath ← ofOption (join H (← pathAt parent) name)
  let exception ← sync (H.mkdirSync fspath mode)
  let inode := hash fspath
  if exception.truthy then err V rc PosixError.EIO
  else
    let stats ← look fun w => H.statSync w fspath
    setTree inode fspath
    method V rc .entry [entryObject inode (stamp inode stats)]

def unlink (parent : ℤ) (name : JsString) : Handler W Unit := do
  let fspath ← ofOption (join H (← pathAt parent) name)
  let exception ← sync (H.unlinkSync fspath)
  let inode := hash fspath
  if exception.truthy then err V rc PosixError.EIO
  else
    deleteTree inode
    err V rc 0

/-- `fs.rmdir` returns `undefined` at once. -/
def rmdir (parent : ℤ) (name : JsString) : Handler W Unit := do
  let fspath ← ofOption (join H (← pathAt parent) name)
  let exception ← sync fun w => (some Value.undefined, (H.rmdir fspath w).2)
  let inode := hash fspath
  if exception.truthy then err V rc PosixError.EIO
  else
    deleteTree inode
    err V rc 0

/-- A path that is `undefined` throws. -/
def link (inode newParent : ℤ) (newName : JsString) : Handler W Unit := do
  let srcPath ← pathAt inode
  let dstPath ← ofOption (join H (← pathAt newParent) newName)
  let inode := hash dstPath
  let exception ← sync (H.linkSync (← ofOption srcPath) dstPath)
  if exception.truthy then err V rc PosixError.EIO
  else
    let stats ← look fun w => H.statSync w dstPath
    setTree inode dstPath
    method V rc .entry [entryObject inode (stamp inode stats)]

def symlink (parent : ℤ) (link name : JsString) : Handler W Unit := do
  let srcPath := link
  let dstPath ← ofOption (join H (← pathAt parent) name)
  let inode := hash dstPath
  let exception ← sync (H.symlinkSync srcPath dstPath)
  if exception.truthy then err V rc PosixError.EIO
  else
    let stats ← look fun w => (H.fs w).lstatSync dstPath
    setTree inode dstPath
    method V rc .entry [entryObject inode (stamp inode stats)]

def readlink (inode : ℤ) : Handler W Unit := do
  let dstPath ← ofOption (← pathAt inode)
  let srcPath ← look fun w => H.readlinkSync w dstPath
  method V rc .readlink [.string srcPath.utf8]

def rename (parent : ℤ) (name : JsString) (newParent : ℤ) (newName : JsString) :
    Handler W Unit := do
  let oldPath ← ofOption (join H (← pathAt parent) name)
  let newPath ← ofOption (join H (← pathAt newParent) newName)
  let newInode := hash newPath
  let _ ← sync (H.renameSync oldPath newPath)
  err V rc 0
  setTree newInode newPath

/-! ## Attributes -/

/-- `lstatSync` throws for `undefined` too, and is caught. -/
def getattr (inode : ℤ) : Handler W Unit := do
  let fspath ← pathAt inode
  match fspath.bind (H.fs (← gets Served.world)).lstatSync with
  | none => err V rc PosixError.ENOENT
  | some stats => method V rc .attr [stamp inode stats]

def setattr (inode : ℤ) (attrs : Value) : Handler W Unit := do
  let fspath ← ofOption (← pathAt inode)
  let exception ← sync (H.chmodSync fspath (attrs.get "mode"))
  if exception.truthy then err V rc PosixError.EIO
  else
    let stats ← look fun w => (H.fs w).lstatSync fspath
    method V rc .attr [.object stats]

/-! ## Files -/

/-- `fileInfo.fh = fd`. -/
def setFh (fd : Num) (fileInfo : FuseFileInfo) : Handler W FuseFileInfo :=
  let (thrown, fileInfo) := FileInfo.setFileHandle V.toRuntime (.number fd) fileInfo
  if thrown.isSome then throw else pure fileInfo

def «open» (inode : ℤ) (fileInfo : FuseFileInfo) : Handler W Unit := do
  let fspath ← ofOption (← pathAt inode)
  let fd ← orElse (sync (H.openSync fspath "a+" none)) (sync (H.openSync fspath "r" none))
  if fd = .nan then err V rc PosixError.EIO
  else
    let fileInfo ← setFh V fd fileInfo
    method V rc .open [.fileInfo fileInfo]

/-- `new Buffer(size)`, with whatever the memory holds. A negative size ends in an exception, if only
in `fs.read`. -/
def newBuffer (size : ℤ) : Option (List UInt8) :=
  if size < 0 then none else some (V.malloc size.toNat)

def read (size offset : ℤ) (fileInfo : FuseFileInfo) : Handler W Unit := do
  let buf ← ofOption (newBuffer V size)
  let bytes ← look (H.read (FileInfo.getFileHandle fileInfo) size.toNat offset)
  method V rc .buffer [.buffer (writeAt buf 0 bytes)]

/-- `readFileSync` is called for nothing but the exceptions it throws. -/
def write (inode : ℤ) (buffer : List UInt8) (offset : ℤ) (fileInfo : FuseFileInfo) :
    Handler W Unit := do
  let fspath ← ofOption (← pathAt inode)
  let _ ← look fun w => H.readFileSync w fspath
  let bytes ← sync (H.writeSync (FileInfo.getFileHandle fileInfo) buffer offset)
  method V rc .write [.int bytes]

def create (parent : ℤ) (name : JsString) (mode : ℤ) (fileInfo : FuseFileInfo) :
    Handler W Unit := do
  let fspath ← ofOption (join H (← pathAt parent) name)
  let fd ← sync (H.openSync fspath "w+" (some mode))
  let inode := hash fspath
  if fd = .nan then err V rc PosixError.EIO
  else
    let stats ← look fun w => H.statSync w fspath
    setTree inode fspath
    let entry := entryObject inode (stamp inode stats)
    let fileInfo ← setFh V fd fileInfo
    method V rc .create [entry, .fileInfo fileInfo]

/-! ## The rest -/

def opendir (fileInfo : FuseFileInfo) : Handler W Unit := method V rc .open [.fileInfo fileInfo]

/-- The greatest double, which `namemax` is. -/
def maxDouble : Num := .fin ((2 ^ 1024 - 2 ^ 971 : ℕ) : ℚ)

def statfs : Handler W Unit :=
  method V rc .statfs [.object [("bsize", .int 1024), ("frsize", .int 0), ("blocks", .int 0),
    ("bfree", .int 0), ("bavail", .int 0), ("files", .int 5), ("ffree", .int 2),
    ("favail", .int 2), ("fsid", .int 4294967295), ("flag", .int 0),
    ("namemax", .number maxDouble)]]

def getxattr (size : ℤ) : Handler W Unit := method V rc .xattr [.int size]

/-- `flush`, `release`, `fsync`, `releasedir`, `fsyncdir`, `setxattr`, `listxattr`, `removexattr`,
`access`, `getlk` and `setlk`. -/
def confirm : Handler W Unit := err V rc 0

/-- `Reply` has no method `bmap`. -/
def bmap : Handler W Unit := throw

/-! ## Requests -/

/-- A call of a method, with the arguments it looks at. `init`, `destroy` and `forget`, which only log,
are left out. -/
inductive Call
  | lookup (parent : ℤ) (name : JsString)
  | mknod
  | mkdir (parent : ℤ) (name : JsString) (mode : ℤ)
  | unlink (parent : ℤ) (name : JsString)
  | rmdir (parent : ℤ) (name : JsString)
  | link (inode newParent : ℤ) (newName : JsString)
  | symlink (parent : ℤ) (link name : JsString)
  | readlink (inode : ℤ)
  | rename (parent : ℤ) (name : JsString) (newParent : ℤ) (newName : JsString)
  | readdir (inode size offset : ℤ)
  | getattr (inode : ℤ)
  | setattr (inode : ℤ) (attrs : Value)
  | open (inode : ℤ) (fileInfo : FuseFileInfo)
  | read (size offset : ℤ) (fileInfo : FuseFileInfo)
  | write (inode : ℤ) (buffer : List UInt8) (offset : ℤ) (fileInfo : FuseFileInfo)
  | create (parent : ℤ) (name : JsString) (mode : ℤ) (fileInfo : FuseFileInfo)
  | opendir (fileInfo : FuseFileInfo)
  | statfs
  | getxattr (size : ℤ)
  | confirm
  | bmap

def handle : Call → Handler W Unit
  | .lookup parent name => lookup V H rc parent name
  | .mknod => mknod V rc
  | .mkdir parent name mode => mkdir V H rc parent name mode
  | .unlink parent name => unlink V H rc parent name
  | .rmdir parent name => rmdir V H rc parent name
  | .link inode newParent newName => link V H rc inode newParent newName
  | .symlink parent target name => symlink V H rc parent target name
  | .readlink inode => readlink V H rc inode
  | .rename parent name newParent newName => rename V H rc parent name newParent newName
  | .readdir inode size offset => modify fun s =>
    let (tree, reply) := readdir V.toRuntime D (H.fs s.world) rc inode size offset s.tree
    { s with tree, reply }
  | .getattr inode => getattr V H rc inode
  | .setattr inode attrs => setattr V H rc inode attrs
  | .open inode fileInfo => NodeFs.open V H rc inode fileInfo
  | .read size offset fileInfo => read V H rc size offset fileInfo
  | .write inode buffer offset fileInfo => write V H rc inode buffer offset fileInfo
  | .create parent name mode fileInfo => create V H rc parent name mode fileInfo
  | .opendir fileInfo => opendir V rc fileInfo
  | .statfs => statfs V rc
  | .getxattr size => getxattr V rc size
  | .confirm => confirm V rc
  | .bmap => bmap

/-- What a call with a fresh `Reply` leaves. -/
def serve (call : Call) (tree : Tree) (world : W) : Served W :=
  final (handle V D H rc call) ⟨tree, world, .new⟩

end Handlers

end NodeFs

end NodeFuse
