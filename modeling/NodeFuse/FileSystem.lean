import Mathlib.Data.List.TakeWhile
import NodeFuse.Values

/-!
# The operations libfuse runs

Each operation of `filesystem.cc` stores its arguments in a fresh array of `void *` and hands the
array, with its own name, to `FileSystem::Proxy`. Only `Lookup` copies what an argument points to.
-/

namespace NodeFuse

/-! ## Memory the pointers lead to -/

/-- What is found at each address: the bytes from there on, or the structure there. -/
structure Mem where
  chars : VoidPtr → List UInt8
  fileInfo : VoidPtr → FuseFileInfo
  stat : VoidPtr → Stat
  flock : VoidPtr → Flock
  deriving Inhabited

def cstring (bytes : List UInt8) : List UInt8 := bytes.takeWhile (· ≠ 0)

theorem zero_notMem_cstring (l : List UInt8) : 0 ∉ cstring l := by
  intro h
  have hsatisfies := List.mem_takeWhile_imp h
  simp at hsatisfies

theorem cstring_append {v : List UInt8} (h : 0 ∉ v) (t : List UInt8) :
    cstring (v ++ t) = v ++ cstring t := by
  refine List.takeWhile_append_of_pos fun b hb => decide_eq_true fun hb0 => ?_
  rw [hb0] at hb
  exact h hb

theorem cstring_eq_self_iff (v : List UInt8) : cstring v = v ↔ 0 ∉ v := by
  refine ⟨fun h => ?_, fun h => ?_⟩
  · rw [← h]
    exact zero_notMem_cstring v
  · have happend := cstring_append h []
    rwa [List.append_nil, show cstring [] = [] from rfl, List.append_nil] at happend

theorem cstring_takeWhile (l : List UInt8) : cstring (cstring l ++ [0]) = cstring l := by
  rw [cstring_append (zero_notMem_cstring l)]
  exact List.append_nil _

namespace Mem

def cstr (m : Mem) (p : VoidPtr) : List UInt8 := cstring (m.chars p)

def strcpy (m : Mem) (dst src : VoidPtr) : Mem :=
  { m with chars := fun p => if p = dst then m.cstr src ++ [0] else m.chars p }

end Mem

/-! ## Requests -/

/-- A request as libfuse passes it to the operation, with the arguments in their C types. The
arguments of `const char *` and structure types are addresses. -/
inductive Request
  | init (conn : VoidPtr)
  | destroy
  | lookup (req : VoidPtr) (parent : UInt64) (name : VoidPtr)
  | getAttr (req : VoidPtr) (ino : UInt64) (fi : VoidPtr)
  | setAttr (req : VoidPtr) (ino : UInt64) (attr : VoidPtr) (toSet : Int32) (fi : VoidPtr)
  | readLink (req : VoidPtr) (ino : UInt64)
  | mkNod (req : VoidPtr) (parent : UInt64) (name : VoidPtr) (mode : UInt32) (rdev : UInt64)
  | mkDir (req : VoidPtr) (parent : UInt64) (name : VoidPtr) (mode : UInt32)
  | unlink (req : VoidPtr) (parent : UInt64) (name : VoidPtr)
  | rmDir (req : VoidPtr) (parent : UInt64) (name : VoidPtr)
  | symLink (req : VoidPtr) (link : VoidPtr) (parent : UInt64) (name : VoidPtr)
  | rename (req : VoidPtr) (parent : UInt64) (name : VoidPtr) (newparent : UInt64)
      (newname : VoidPtr)
  | link (req : VoidPtr) (ino : UInt64) (newparent : UInt64) (newname : VoidPtr)
  | open (req : VoidPtr) (ino : UInt64) (fi : VoidPtr)
  | read (req : VoidPtr) (ino : UInt64) (size : UInt64) (off : Int64) (fi : VoidPtr)
  | write (req : VoidPtr) (ino : UInt64) (buf : VoidPtr) (size : UInt64) (off : Int64)
      (fi : VoidPtr)
  | flush (req : VoidPtr) (ino : UInt64) (fi : VoidPtr)
  | release (req : VoidPtr) (ino : UInt64) (fi : VoidPtr)
  | fSync (req : VoidPtr) (ino : UInt64) (datasync : Int32) (fi : VoidPtr)
  | openDir (req : VoidPtr) (ino : UInt64) (fi : VoidPtr)
  | readDir (req : VoidPtr) (ino : UInt64) (size : UInt64) (off : Int64) (fi : VoidPtr)
  | releaseDir (req : VoidPtr) (ino : UInt64) (fi : VoidPtr)
  | fSyncDir (req : VoidPtr) (ino : UInt64) (datasync : Int32) (fi : VoidPtr)
  | statFs (req : VoidPtr) (ino : UInt64)
  | setXAttr (req : VoidPtr) (ino : UInt64) (name : VoidPtr) (value : VoidPtr) (size : UInt64)
      (flags : Int32)
  | getXAttr (req : VoidPtr) (ino : UInt64) (name : VoidPtr) (size : UInt64)
  | listXAttr (req : VoidPtr) (ino : UInt64) (size : UInt64)
  | removeXAttr (req : VoidPtr) (ino : UInt64) (name : VoidPtr)
  | access (req : VoidPtr) (ino : UInt64) (mask : Int32)
  | create (req : VoidPtr) (parent : UInt64) (name : VoidPtr) (mode : UInt32) (fi : VoidPtr)
  | getLock (req : VoidPtr) (ino : UInt64) (fi : VoidPtr) (lock : VoidPtr)
  | setLock (req : VoidPtr) (ino : UInt64) (fi : VoidPtr) (lock : VoidPtr) (sleep : Int32)
  | bMap (req : VoidPtr) (ino : UInt64) (blocksize : UInt64) (idx : UInt64)
  deriving DecidableEq

/-! ## Packing -/

/-- An array `new void *[len]` and what `args[0] = ..`, `args[1] = ..` and so on stored in it. -/
structure ArgArray where
  len : ℕ
  stored : List VoidPtr
  deriving DecidableEq

/-- The memory from `args` on, wherever the block ends. -/
def ArgArray.raw (a : ArgArray) (i : ℕ) : Option VoidPtr := a.stored[i]?

/-- The slot `i`, if it lies in the block and something was stored there. -/
def ArgArray.checked (a : ArgArray) (i : ℕ) : Option VoidPtr :=
  if i < a.len then a.stored[i]? else none

structure ThreadFunData where
  args : ArgArray
  op : String
  deriving DecidableEq

/-- What an operation passes to `FileSystem::Proxy`. -/
def post (op : String) (len : ℕ) (stored : List VoidPtr) : ThreadFunData := ⟨⟨len, stored⟩, op⟩

/-- `(void *) x` of a signed integer extends its sign. -/
def ofInt (x : Int32) : VoidPtr := x.toInt64.toUInt64
def ofOff (x : Int64) : VoidPtr := x.toUInt64
def ofMode (x : UInt32) : VoidPtr := x.toUInt64

namespace FileSystem

def init (conn : VoidPtr) := post "Init" 1 [conn]
def destroy := post "Destroy" 0 []
/-- `copy` is the block `new char[_len + 1]` returned, to which `name` is copied (`effect`). -/
def lookup (copy req : VoidPtr) (parent : UInt64) (_name : VoidPtr) :=
  post "Lookup" 3 [req, parent, copy]
def getAttr (req : VoidPtr) (ino : UInt64) (fi : VoidPtr) := post "GetAttr" 3 [req, ino, fi]
def setAttr (req : VoidPtr) (ino : UInt64) (attr : VoidPtr) (toSet : Int32) (fi : VoidPtr) :=
  post "SetAttr" 5 [req, ino, attr, ofInt toSet, fi]
def readLink (req : VoidPtr) (ino : UInt64) := post "ReadLink" 2 [req, ino]
def mkNod (req : VoidPtr) (parent : UInt64) (name : VoidPtr) (mode : UInt32) (rdev : UInt64) :=
  post "MkNod" 5 [req, parent, name, ofMode mode, rdev]
def mkDir (req : VoidPtr) (parent : UInt64) (name : VoidPtr) (mode : UInt32) :=
  post "MkDir" 4 [req, parent, name, ofMode mode]
def unlink (req : VoidPtr) (parent : UInt64) (name : VoidPtr) :=
  post "Unlink" 3 [req, parent, name]
def rmDir (req : VoidPtr) (parent : UInt64) (name : VoidPtr) := post "RmDir" 3 [req, parent, name]
def symLink (req link : VoidPtr) (parent : UInt64) (name : VoidPtr) :=
  post "SymLink" 4 [req, link, parent, name]
def rename (req : VoidPtr) (parent : UInt64) (name : VoidPtr) (newparent : UInt64)
    (newname : VoidPtr) :=
  post "Rename" 5 [req, parent, name, newparent, newname]
def link (req : VoidPtr) (ino newparent : UInt64) (newname : VoidPtr) :=
  post "Link" 4 [req, ino, newparent, newname]
def «open» (req : VoidPtr) (ino : UInt64) (fi : VoidPtr) := post "Open" 3 [req, ino, fi]
def read (req : VoidPtr) (ino size : UInt64) (off : Int64) (fi : VoidPtr) :=
  post "Read" 5 [req, ino, size, ofOff off, fi]
def write (req : VoidPtr) (ino : UInt64) (buf : VoidPtr) (size : UInt64) (off : Int64)
    (fi : VoidPtr) :=
  post "Write" 6 [req, ino, buf, size, ofOff off, fi]
def flush (req : VoidPtr) (ino : UInt64) (fi : VoidPtr) := post "Flush" 3 [req, ino, fi]
def release (req : VoidPtr) (ino : UInt64) (fi : VoidPtr) := post "Release" 3 [req, ino, fi]
def fSync (req : VoidPtr) (ino : UInt64) (datasync : Int32) (fi : VoidPtr) :=
  post "FSync" 4 [req, ino, ofInt datasync, fi]
def openDir (req : VoidPtr) (ino : UInt64) (fi : VoidPtr) := post "OpenDir" 3 [req, ino, fi]
def readDir (req : VoidPtr) (ino size : UInt64) (off : Int64) (fi : VoidPtr) :=
  post "ReadDir" 5 [req, ino, size, ofOff off, fi]
def releaseDir (req : VoidPtr) (ino : UInt64) (fi : VoidPtr) := post "ReleaseDir" 3 [req, ino, fi]
def fSyncDir (req : VoidPtr) (ino : UInt64) (datasync : Int32) (fi : VoidPtr) :=
  post "FSyncDir" 4 [req, ino, ofInt datasync, fi]
def statFs (req : VoidPtr) (ino : UInt64) := post "StatFs" 2 [req, ino]
/-- Without `__APPLE__` the array has five slots, and `args[5]` is stored all the same. -/
def setXAttr (req : VoidPtr) (ino : UInt64) (name value : VoidPtr) (size : UInt64)
    (flags : Int32) :=
  post "SetXAttr" 5 [req, ino, name, value, size, ofInt flags]
def getXAttr (req : VoidPtr) (ino : UInt64) (name : VoidPtr) (size : UInt64) :=
  post "GetXAttr" 4 [req, ino, name, size]
def listXAttr (req : VoidPtr) (ino size : UInt64) := post "ListXAttr" 3 [req, ino, size]
def removeXAttr (req : VoidPtr) (ino : UInt64) (name : VoidPtr) :=
  post "RemoveXAttr" 3 [req, ino, name]
def access (req : VoidPtr) (ino : UInt64) (mask : Int32) :=
  post "Access" 3 [req, ino, ofInt mask]
def create (req : VoidPtr) (parent : UInt64) (name : VoidPtr) (mode : UInt32) (fi : VoidPtr) :=
  post "Create" 5 [req, parent, name, ofMode mode, fi]
def getLock (req : VoidPtr) (ino : UInt64) (fi lock : VoidPtr) :=
  post "GetLock" 4 [req, ino, fi, lock]
def setLock (req : VoidPtr) (ino : UInt64) (fi lock : VoidPtr) (sleep : Int32) :=
  post "SetLock" 5 [req, ino, fi, lock, ofInt sleep]
def bMap (req : VoidPtr) (ino blocksize idx : UInt64) := post "BMap" 4 [req, ino, blocksize, idx]

def serve (copy : VoidPtr) : Request → ThreadFunData
  | .init conn => init conn
  | .destroy => destroy
  | .lookup req parent name => lookup copy req parent name
  | .getAttr req ino fi => getAttr req ino fi
  | .setAttr req ino attr toSet fi => setAttr req ino attr toSet fi
  | .readLink req ino => readLink req ino
  | .mkNod req parent name mode rdev => mkNod req parent name mode rdev
  | .mkDir req parent name mode => mkDir req parent name mode
  | .unlink req parent name => unlink req parent name
  | .rmDir req parent name => rmDir req parent name
  | .symLink req link parent name => symLink req link parent name
  | .rename req parent name newparent newname => rename req parent name newparent newname
  | .link req ino newparent newname => link req ino newparent newname
  | .open req ino fi => «open» req ino fi
  | .read req ino size off fi => read req ino size off fi
  | .write req ino buf size off fi => write req ino buf size off fi
  | .flush req ino fi => flush req ino fi
  | .release req ino fi => release req ino fi
  | .fSync req ino datasync fi => fSync req ino datasync fi
  | .openDir req ino fi => openDir req ino fi
  | .readDir req ino size off fi => readDir req ino size off fi
  | .releaseDir req ino fi => releaseDir req ino fi
  | .fSyncDir req ino datasync fi => fSyncDir req ino datasync fi
  | .statFs req ino => statFs req ino
  | .setXAttr req ino name value size flags => setXAttr req ino name value size flags
  | .getXAttr req ino name size => getXAttr req ino name size
  | .listXAttr req ino size => listXAttr req ino size
  | .removeXAttr req ino name => removeXAttr req ino name
  | .access req ino mask => access req ino mask
  | .create req parent name mode fi => create req parent name mode fi
  | .getLock req ino fi lock => getLock req ino fi lock
  | .setLock req ino fi lock sleep => setLock req ino fi lock sleep
  | .bMap req ino blocksize idx => bMap req ino blocksize idx

/-- What the operation does to memory besides the array: `Lookup` copies its name. -/
def effect (copy : VoidPtr) (m : Mem) : Request → Mem
  | .lookup _ _ name => m.strcpy copy name
  | _ => m

end FileSystem

end NodeFuse
