import NodeFuse.NodeFsRuns

/-!
# Calling NodeFS

A method of `nodefs.js` finds its parameters by their places among the arguments of the proxy, and the
request it replies to behind the one it calls `reply`. `setxattr` is passed one argument too few on
Linux, so what it calls `reply` is `undefined`.
-/

namespace NodeFuse

/-- `String::New` of a C string; what it makes of bytes that are not UTF-8 is left open. -/
structure Utf8 where
  decode : List UInt8 → JsString
  decode_utf8 : ∀ s : JsString, decode s.utf8 = s

namespace Utf8

/-- Decodes what is UTF-8, and nothing else. -/
def strict : Utf8 where
  decode bytes := ((ByteArray.mk bytes.toArray).utf8Decode?.map Array.toList).getD []
  decode_utf8 s := by
    have hbytes : ByteArray.mk s.utf8.toArray = s.utf8Encode := by
      rw [List.utf8Encode, JsString.utf8]
      exact ByteArray.ext (by simp)
    rw [hbytes, List.utf8Decode?_utf8Encode]
    rfl

end Utf8

namespace NodeFs

open Reply (arg)

/-! ## Parameters -/

section Parameters

variable (U : Utf8) (argv : List Value) (i : ℕ)

def numberAt : Option ℤ :=
  match arg argv i with
  | .number (.fin q) => if q.den = 1 then some q.num else none
  | _ => none

def stringAt : Option JsString :=
  match arg argv i with
  | .string utf8 => some (U.decode utf8)
  | _ => none

def bufferAt : Option (List UInt8) := (arg argv i).buffer?

def fileInfoAt : Option FuseFileInfo := (arg argv i).fileInfo?

/-- The request behind a `Reply`. -/
def replyAt : Option VoidPtr :=
  match arg argv i with
  | .reply req => some req
  | _ => none

end Parameters

/-- `typeof v === 'object'`. -/
def typeofObject : Value → Bool
  | .null => true
  | v => v.isObject

section Methods

variable (U : Utf8) (argv : List Value)

/-- The place of the parameter `reply`. On Linux `getxattr` takes it from `position`. -/
def replyPlace : String → Option ℕ
  | "getattr" | "readlink" | "statfs" => some 2
  | "lookup" | "setattr" | "unlink" | "rmdir" | "open" | "flush" | "release" | "opendir"
  | "releasedir" | "listxattr" | "removexattr" | "access" => some 3
  | "mkdir" | "link" | "symlink" | "fsync" | "fsyncdir" | "getlk" | "bmap" => some 4
  | "mknod" | "rename" | "read" | "write" | "readdir" | "create" | "setlk" => some 5
  | "setxattr" => some 7
  | "getxattr" => some (if typeofObject (arg argv 4) then 4 else 5)
  | _ => none

/-- What a method makes of its other parameters. -/
def callOf : String → Option Call
  | "lookup" => return .lookup (← numberAt argv 1) (← stringAt U argv 2)
  | "getattr" => return .getattr (← numberAt argv 1)
  | "setattr" => return .setattr (← numberAt argv 1) (arg argv 2)
  | "readlink" => return .readlink (← numberAt argv 1)
  | "mknod" => some .mknod
  | "mkdir" => return .mkdir (← numberAt argv 1) (← stringAt U argv 2) (← numberAt argv 3)
  | "unlink" => return .unlink (← numberAt argv 1) (← stringAt U argv 2)
  | "rmdir" => return .rmdir (← numberAt argv 1) (← stringAt U argv 2)
  | "symlink" =>
    return .symlink (← numberAt argv 1) (← stringAt U argv 2) (← stringAt U argv 3)
  | "rename" =>
    return .rename (← numberAt argv 1) (← stringAt U argv 2) (← numberAt argv 3)
      (← stringAt U argv 4)
  | "link" => return .link (← numberAt argv 1) (← numberAt argv 2) (← stringAt U argv 3)
  | "open" => return .open (← numberAt argv 1) (← fileInfoAt argv 2)
  | "read" => return .read (← numberAt argv 2) (← numberAt argv 3) (← fileInfoAt argv 4)
  | "write" =>
    return .write (← numberAt argv 1) (← bufferAt argv 2) (← numberAt argv 3)
      (← fileInfoAt argv 4)
  | "opendir" => return .opendir (← fileInfoAt argv 2)
  | "readdir" =>
    return .readdir (← numberAt argv 1) (← numberAt argv 2) (← numberAt argv 3)
  | "statfs" => some .statfs
  | "getxattr" => return .getxattr (← numberAt argv 3)
  | "create" =>
    return .create (← numberAt argv 1) (← stringAt U argv 2) (← numberAt argv 3)
      (← fileInfoAt argv 4)
  | "bmap" => some .bmap
  | "flush" | "release" | "fsync" | "releasedir" | "fsyncdir" | "setxattr" | "listxattr"
  | "removexattr" | "access" | "getlk" | "setlk" => some .confirm
  | _ => none

end Methods

/-- The request a method replies to, and its call. `init` and `destroy` only log, and without a `Reply`
`setxattr` throws at once. -/
def enter (U : Utf8) (i : Invocation) : Option (VoidPtr × Call) := do
  let req ← replyAt i.argv (← replyPlace i.argv i.method)
  return (req, ← callOf U i.argv i.method)

/-! ## Replies -/

section Replies

variable {W : Type} (V : Platform) (H : Host W)

/-- The host said that something was wrong, or has the stat that is asked for next. -/
def concluded (exception : Value) (stats : Option Stats) : Bool := exception.truthy || stats.isSome

/-- Nothing that the call does before its reply throws. -/
def answered (s : State W) : Call → Option Bool
  | .lookup parent name => do
    let _ ← join H (s.tree parent) name
    return true
  | .mkdir parent name mode => do
    let fspath ← join H (s.tree parent) name
    let (exception, w) := H.mkdirSync fspath mode s.world
    return concluded (← exception) (H.statSync w fspath)
  | .unlink parent name => do
    let _ ← (H.unlinkSync (← join H (s.tree parent) name) s.world).1
    return true
  | .rmdir parent name => do
    let _ ← join H (s.tree parent) name
    return true
  | .link inode newParent newName => do
    let dstPath ← join H (s.tree newParent) newName
    let (exception, w) := H.linkSync (← s.tree inode) dstPath s.world
    return concluded (← exception) (H.statSync w dstPath)
  | .symlink parent link name => do
    let dstPath ← join H (s.tree parent) name
    let (exception, w) := H.symlinkSync link dstPath s.world
    return concluded (← exception) ((H.fs w).lstatSync dstPath)
  | .readlink inode => do
    let _ ← H.readlinkSync s.world (← s.tree inode)
    return true
  | .rename parent name newParent newName => do
    let oldPath ← join H (s.tree parent) name
    let newPath ← join H (s.tree newParent) newName
    let _ ← (H.renameSync oldPath newPath s.world).1
    return true
  | .setattr inode attrs => do
    let fspath ← s.tree inode
    let (exception, w) := H.chmodSync fspath (attrs.get "mode") s.world
    return concluded (← exception) ((H.fs w).lstatSync fspath)
  | .open inode _ => do
    let fspath ← s.tree inode
    let (fd, w) := H.openSync fspath "a+" none s.world
    let _ ← fd <|> (H.openSync fspath "r" none w).1
    return true
  | .read size offset fileInfo => do
    guard (0 ≤ size)
    let _ ← H.read (FileInfo.getFileHandle fileInfo) size.toNat offset s.world
    return true
  | .write inode buffer offset fileInfo => do
    let _ ← H.readFileSync s.world (← s.tree inode)
    let _ ← (H.writeSync (FileInfo.getFileHandle fileInfo) buffer offset s.world).1
    return true
  | .create parent name mode _ => do
    let fspath ← join H (s.tree parent) name
    let (fd, w) := H.openSync fspath "w+" (some mode) s.world
    return (← fd) = .nan || (H.statSync w fspath).isSome
  | .getxattr size => some (-2 ^ 31 ≤ size ∧ size < 2 ^ 31)
  | .mknod | .getattr _ | .opendir _ | .statfs | .confirm => some true
  | .readdir .. | .bmap => none

/-- The entries that `readdir` comes to before one without a stat. -/
def reached (fs : Fs) (fspath : JsString) (names : List JsString) : List JsString :=
  (entries names).takeWhile fun name => (fs.lstatSync (Path.join fspath name)).isSome

/-- There is nothing more to read, or all entries have a stat and fit, or the reply is for one that did
not fit, and one without a stat keeps `readdir` from the last reply. -/
def ReaddirRepliesOnce (rc : ℕ → ℤ) (fs : Fs) (fspath : JsString) (names : List JsString)
    (size offset : ℤ) : Prop :=
  (entries names).length ≤ offset + 1
    ∨ (reached fs fspath names = entries names
      ∧ entriesSize (entries names) ≤ Reply.requestedSize V.toRuntime (.fin size))
    ∨ (reached fs fspath names ≠ entries names ∧ rc 0 ≠ -1
      ∧ (Packing.passed (fun name => direntSize (JsString.utf8 name).length)
        (Reply.requestedSize V.toRuntime (.fin size)) 0 (reached fs fspath names)).length = 1)

/-- What it takes for exactly one reply. -/
def RepliesOnce (s : State W) (e : Request) : Prop :=
  match e.call with
  | .readdir inode size offset => ∃ fspath names, directory H inode s = some (fspath, names)
    ∧ ReaddirRepliesOnce V e.rc (H.fs s.world) fspath names size offset
  | call => answered H s call = some true

end Replies

/-! ## One request after another -/

/-- NodeFS, and what it has replied, each time with the request that it replied to. -/
structure Conversation (W : Type) where
  nodefs : State W
  replies : List (VoidPtr × List FuseReply)

def Conversation.init {W : Type} (w : W) : Conversation W := ⟨.init w, []⟩

/-- A call, if the method was entered, takes its effect. -/
def Conversation.take {W : Type} (V : Platform) (D : DirentFormat) (H : Host W) (rc : ℕ → ℤ)
    (entered : Option (VoidPtr × Call)) (c : Conversation W) : Conversation W :=
  match entered with
  | some (req, call) =>
    { nodefs := next V D H c.nodefs ⟨call, rc⟩
      replies := c.replies
        ++ [(req, (serve V D H rc call c.nodefs.tree c.nodefs.world).reply.sent)] }
  | none => c

end NodeFs

end NodeFuse
