import NodeFuse.Conversions
import NodeFuse.Lib.IntType

/-!
# The other structures a reply is made of

`ObjectToFuseEntryParam`, `ObjectToStatVfs` and `ObjectToFlock` of `node_fuse.cc`, each into a
structure that holds something already. `Platform` adds to `Runtime` what these rest on.
-/

namespace NodeFuse

structure FuseEntryParam where
  ino : UInt64
  generation : UInt64
  attr : Stat
  attrTimeout : Num
  entryTimeout : Num
  deriving DecidableEq, Inhabited

structure StatVfs where
  bsize : UInt64
  frsize : UInt64
  blocks : UInt64
  bfree : UInt64
  bavail : UInt64
  files : UInt64
  ffree : UInt64
  favail : UInt64
  fsid : UInt64
  flag : UInt64
  namemax : UInt64
  deriving DecidableEq, Inhabited

/-- What V8 and the compiler decide besides. -/
structure Platform extends Runtime where
  /-- The cast of a double to an `unsigned long`, as `castInt64` is that to a 64-bit integer. -/
  castUInt64 : Num → UInt64
  castUInt64_fin : ∀ q : ℚ, 0 ≤ Num.trunc q → Num.trunc q < 2 ^ 64 →
    castUInt64 (.fin q) = UInt64.ofNat (Num.trunc q).toNat
  toNumber_undefined : toNumber .undefined = .nan
  toNumber_date : ∀ ms, toNumber (.date ms) = ms

/-- `ToObject`, which throws and returns an empty handle for `undefined` and `null`. A wrapper has
none of the properties that are read here, and nor has what it wraps. -/
def Value.toObject : Value → Option Value
  | .undefined | .null => none
  | v => some v

def Runtime.objectToFlock (V : Runtime) (obj : Value) (lock : Flock) : Flock :=
  -- as many bytes as a pointer has
  let lock := { lock with type := 0, whence := 0 }
  { lock with
    type := (V.integerValue (obj.get "type")).toInt16
    whence := (V.integerValue (obj.get "whence")).toInt16
    start := V.integerValue (obj.get "start")
    len := V.integerValue (obj.get "len")
    pid := (V.integerValue (obj.get "pid")).toInt32 }

/-- No structure results where `attr` is `undefined` or `null`: the empty handle is dereferenced. -/
def Runtime.objectToFuseEntryParam (V : Runtime) (obj : Value) (entry : FuseEntryParam) :
    Option FuseEntryParam :=
  let entry := { entry with ino := 0 }
  let entry := { entry with
    ino := (V.integerValue (obj.get "inode")).toUInt64
    generation := (V.integerValue (obj.get "generation")).toUInt64
    attrTimeout := V.numberValue (obj.get "attr_timeout")
    entryTimeout := V.numberValue (obj.get "entry_timeout") }
  (obj.get "attr").toObject.map fun attr =>
    { entry with attr := V.objectToStat attr entry.attr }

namespace Platform

def objectToStatVfs (V : Platform) (obj : Value) (statbuf : StatVfs) : StatVfs :=
  let statbuf := { statbuf with bsize := 0 }
  { statbuf with
    bsize := V.castUInt64 (V.numberValue (obj.get "bsize"))
    frsize := V.castUInt64 (V.numberValue (obj.get "blocks"))
    blocks := (V.integerValue (obj.get "blocks")).toUInt64
    bfree := (V.integerValue (obj.get "bfree")).toUInt64
    bavail := (V.integerValue (obj.get "bavail")).toUInt64
    files := (V.integerValue (obj.get "files")).toUInt64
    ffree := (V.integerValue (obj.get "ffree")).toUInt64
    favail := V.castUInt64 (V.numberValue (obj.get "favail"))
    fsid := V.castUInt64 (V.numberValue (obj.get "fsid"))
    flag := V.castUInt64 (V.numberValue (obj.get "flag"))
    namemax := V.castUInt64 (V.numberValue (obj.get "namemax")) }

/-- NaN is cast to the same bits by both casts. -/
def amd64 : Platform where
  toRuntime := .amd64
  castUInt64
    | .fin q => if 0 ≤ Num.trunc q ∧ Num.trunc q < 2 ^ 64 then .ofNat (Num.trunc q).toNat
      else .ofNat (2 ^ 63)
    | _ => .ofNat (2 ^ 63)
  castUInt64_fin := fun _ h1 h2 => if_pos ⟨h1, h2⟩
  toNumber_undefined := rfl
  toNumber_date := fun _ => rfl

end Platform

/-! ## What is sent -/

/-- libfuse sends every field of a `struct stat` but the device. -/
def Stat.sent (s : Stat) : Stat := { s with dev := 0 }

def FuseEntryParam.sent (e : FuseEntryParam) : FuseEntryParam := { e with attr := e.attr.sent }

/-- The nanosecond parts, which no decoder stores. -/
def Stat.nsecs (s : Stat) : Int64 × Int64 × Int64 := (s.atimeNsec, s.mtimeNsec, s.ctimeNsec)

end NodeFuse
