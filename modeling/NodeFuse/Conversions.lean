import NodeFuse.Values

/-!
# Structures to objects and back

The conversions of `node_fuse.cc`. What C++ leaves undefined and what the libraries decide is a
parameter, `Runtime`, with the part of it that is defined.
-/

namespace NodeFuse

/-! ## Structures to objects -/

def requestContextToObject (ctx : FuseCtx) : Value :=
  .object [("uid", .int (Integer.new ctx.uid.toNat)), ("gid", .int (Integer.new ctx.gid.toNat)),
    ("pid", .int (Integer.new ctx.pid.toInt))]

def FUSE_SET_ATTR_MODE : Int32 := 1
def FUSE_SET_ATTR_UID : Int32 := 2
def FUSE_SET_ATTR_GID : Int32 := 4
def FUSE_SET_ATTR_SIZE : Int32 := 8
def FUSE_SET_ATTR_ATIME : Int32 := 16
def FUSE_SET_ATTR_MTIME : Int32 := 32

def getAttrsToBeSet (toSet : Int32) (stat : Stat) : Value :=
  let attr (flag : Int32) (name : String) (v : Value) : List (String × Value) :=
    if toSet &&& flag ≠ 0 then [(name, v)] else []
  .object <|
    attr FUSE_SET_ATTR_MODE "mode" (.int (Integer.new stat.mode.toNat)) ++
    attr FUSE_SET_ATTR_UID "uid" (.int (Integer.new stat.uid.toNat)) ++
    attr FUSE_SET_ATTR_GID "gid" (.int (Integer.new stat.gid.toNat)) ++
    attr FUSE_SET_ATTR_SIZE "size" (.int (Number.new stat.size.toInt)) ++
    attr FUSE_SET_ATTR_ATIME "atime" (nodeUnixtimeV8 stat.atime.toInt) ++
    attr FUSE_SET_ATTR_MTIME "mtime" (nodeUnixtimeV8 stat.mtime.toInt)

def flockToObject (lock : Flock) : Value :=
  .object [("type", .int (Integer.new lock.type.toInt)),
    ("whence", .int (Integer.new lock.whence.toInt)),
    ("start", .int (Integer.new lock.start.toInt)), ("len", .int (Integer.new lock.len.toInt)),
    ("pid", .int (Integer.new lock.pid.toInt))]

/-! ## Objects to structures -/

namespace Num

/-- The integral part, as a cast to an integer type takes it. -/
def trunc (q : ℚ) : ℤ := q.num.tdiv q.den

def toInteger : Num → Num
  | .nan => .fin 0
  | .inf neg => .inf neg
  | .fin q => .fin (trunc q)

def div1000 : Num → Num
  | .fin q => .fin (q / 1000)
  | x => x

end Num

/-- What V8, the compiler and the C library decide. -/
structure Runtime where
  /-- The cast of a double to a 64-bit integer, whatever it is where C++ leaves it undefined. -/
  castInt64 : Num → Int64
  castInt64_fin : ∀ q : ℚ, -2 ^ 63 ≤ Num.trunc q → Num.trunc q < 2 ^ 63 →
    castInt64 (.fin q) = Int64.ofInt (Num.trunc q)
  /-- `ToNumber`. A conversion that throws, as that of `Object.create(null)` does, is left out. -/
  toNumber : Value → Num
  toNumber_number : ∀ x, toNumber (.number x) = x
  /-- What an uninitialised `struct stat` on the stack holds. -/
  stack : Stat
  /-- The block `malloc` returns where it succeeds. It cannot for a size of `2 ^ 63` or more. -/
  malloc : ℕ → List UInt8
  length_malloc : ∀ n, (malloc n).length = n
  strerror : String

namespace Runtime

variable (V : Runtime)

/-- `Value::IntegerValue` of V8 3.x: a number is cast as it is, anything else after `ToInteger`, which
is taken not to throw. -/
def integerValue : Value → Int64
  | .number x => V.castInt64 x
  | v => V.castInt64 (V.toNumber v).toInteger

def numberValue (v : Value) : Num := V.toNumber v

/-- `NODE_V8_UNIXTIME`, stored in a `time_t`. -/
def nodeV8Unixtime (v : Value) : Int64 := V.castInt64 (V.numberValue v).div1000

/-- `ObjectToStat` into a structure that holds `statbuf`. The `memset` clears as many bytes as a
pointer has, which are `st_dev`, and the nanoseconds are never stored. -/
def objectToStat (obj : Value) (statbuf : Stat) : Stat :=
  let statbuf := { statbuf with dev := 0 }
  { statbuf with
    dev := (V.integerValue (obj.get "dev")).toUInt64
    ino := (V.integerValue (obj.get "inode")).toUInt64
    mode := (V.integerValue (obj.get "mode")).toUInt64.toUInt32
    nlink := (V.integerValue (obj.get "nlink")).toUInt64
    uid := (V.integerValue (obj.get "uid")).toUInt64.toUInt32
    gid := (V.integerValue (obj.get "gid")).toUInt64.toUInt32
    rdev := (V.integerValue (obj.get "rdev")).toUInt64
    size := V.castInt64 (V.numberValue (obj.get "size"))
    blksize := V.integerValue (obj.get "blksize")
    blocks := V.integerValue (obj.get "blocks")
    atime := V.nodeV8Unixtime (obj.get "atime")
    mtime := V.nodeV8Unixtime (obj.get "mtime")
    ctime := V.nodeV8Unixtime (obj.get "ctime") }

theorem trunc_intCast (n : ℤ) : Num.trunc (n : ℚ) = n := by
  simp [Num.trunc]

/-- An integer in the range of an `int64_t` is its own integer value. -/
theorem integerValue_int {n : ℤ} (h1 : -2 ^ 63 ≤ n) (h2 : n < 2 ^ 63) :
    V.integerValue (.int n) = Int64.ofInt n := by
  have h := V.castInt64_fin (n : ℚ)
  rw [trunc_intCast] at h
  exact h h1 h2

/-- On amd64 a double out of range is cast to the least integer, and so is NaN. Objects but dates
are no numbers, nor are strings here. -/
def amd64 : Runtime where
  castInt64
    | .fin q => if -2 ^ 63 ≤ Num.trunc q ∧ Num.trunc q < 2 ^ 63 then .ofInt (Num.trunc q)
      else .minValue
    | _ => .minValue
  castInt64_fin := fun _ h1 h2 => if_pos ⟨h1, h2⟩
  toNumber
    | .null => .fin 0
    | .boolean b => .fin (if b then 1 else 0)
    | .number x | .date x => x
    | _ => .nan
  toNumber_number := fun _ => rfl
  stack := default
  malloc := fun n => .replicate n 0
  length_malloc := fun _ => List.length_replicate
  strerror := "Success"

end Runtime

end NodeFuse
