import Mathlib.Data.Rat.Defs
import NodeFuse.Lib.Double

/-!
# Values on the two sides of the binding

The C structures libfuse hands over, on LP64 with `FUSE_USE_VERSION` 27 and 64-bit offsets, and the
JavaScript values V8 makes of them. A string stands for its UTF-8 bytes, which is all that passes
between `String::New` and `String::Utf8Value`.
-/

namespace NodeFuse

/-! ## C types -/

abbrev VoidPtr := UInt64

/-- `struct fuse_file_info`; the flags are one-bit fields. -/
structure FuseFileInfo where
  flags : Int32
  writepage : Int32
  directIo : Bool
  keepCache : Bool
  flush : Bool
  nonseekable : Bool
  fh : UInt64
  lockOwner : UInt64
  deriving DecidableEq, Inhabited

/-- `struct stat`, each time with its nanoseconds. -/
structure Stat where
  dev : UInt64
  ino : UInt64
  mode : UInt32
  nlink : UInt64
  uid : UInt32
  gid : UInt32
  rdev : UInt64
  size : Int64
  blksize : Int64
  blocks : Int64
  atime : Int64
  atimeNsec : Int64
  mtime : Int64
  mtimeNsec : Int64
  ctime : Int64
  ctimeNsec : Int64
  deriving DecidableEq, Inhabited

structure Flock where
  type : Int16
  whence : Int16
  start : Int64
  len : Int64
  pid : Int32
  deriving DecidableEq, Inhabited

structure FuseCtx where
  uid : UInt32
  gid : UInt32
  pid : Int32
  deriving DecidableEq, Inhabited

structure FuseConnInfo where
  protoMajor : UInt32
  protoMinor : UInt32
  asyncRead : UInt32
  maxWrite : UInt32
  maxReadahead : UInt32
  deriving DecidableEq, Inhabited

/-! ## JavaScript values -/

inductive Num
  | nan
  | inf (negative : Bool)
  | fin (q : ℚ)
  deriving DecidableEq, Inhabited

inductive Value
  | undefined
  | null
  | boolean (b : Bool)
  | number (x : Num)
  | string (utf8 : List UInt8)
  /-- What `ToObject` makes of a boolean. -/
  | booleanObject (b : Bool)
  | date (ms : Num)
  | buffer (bytes : List UInt8)
  | fileInfo (fi : FuseFileInfo)
  /-- What `new fileInfo.constructor()` makes: an instance of the template with nothing behind it. -/
  | hollowFileInfo
  | reply (req : VoidPtr)
  | object (props : List (String × Value))

/-- What a call throws. -/
inductive JsError
  | typeError (message : String)
  | error (message : String)
  deriving DecidableEq

namespace Value

def isString : Value → Bool
  | .string _ => true
  | _ => false

def isNumber : Value → Bool
  | .number _ => true
  | _ => false

def isBoolean : Value → Bool
  | .boolean _ => true
  | _ => false

def isTrue : Value → Bool
  | .boolean b => b
  | _ => false

def isObject : Value → Bool
  | .booleanObject _ | .date _ | .buffer _ | .fileInfo _ | .hollowFileInfo | .reply _ | .object _ =>
    true
  | _ => false

/-- `obj->Get(name)`: an absent property reads as undefined. -/
def get : Value → String → Value
  | .object props, name => (props.lookup name).getD .undefined
  | _, _ => .undefined

/-- The object has a property of the name. -/
def has : Value → String → Bool
  | .object props, name => (props.lookup name).isSome
  | _, _ => false

def set : Value → String → Value → Value
  | .object props, name, v => .object ((name, v) :: props)
  | o, _, _ => o

@[simp] theorem get_object_cons (name key : String) (v : Value) (props : List (String × Value)) :
    (object ((key, v) :: props)).get name = if name = key then v else (object props).get name := by
  show (List.lookup name ((key, v) :: props)).getD .undefined = _
  rw [List.lookup_cons]
  by_cases h : name = key
  · rw [if_pos h, beq_iff_eq.2 h]
    rfl
  · rw [if_neg h, beq_eq_false_iff_ne.2 h]
    rfl

end Value

/-! ## V8 constructors -/

/-- What `Number::New` keeps of an integer: the nearest double. -/
def Number.new (n : ℤ) : ℤ := Double.round n

/-- What `Integer::New` keeps of an integer: V8 3.x takes an `int32_t`. -/
def Integer.new (n : ℤ) : ℤ := n.bmod (2 ^ 32)

def Value.int (n : ℤ) : Value := .number (.fin n)

/-- `NODE_UNIXTIME_V8`: a date at 1000 times the seconds, in doubles. There are no dates farther than
100 million days from the epoch. -/
def nodeUnixtimeV8 (t : ℤ) : Value :=
  let ms := Double.round (1000 * Double.round t)
  .date (if ms.natAbs ≤ 8640000000000000 then .fin ms else .nan)

theorem Number.new_of_le {n : ℤ} (h0 : 0 ≤ n) (h : n ≤ 2 ^ 53) : Number.new n = n :=
  Double.round_of_le (by omega)

/-- An integer survives `Integer::New` exactly when it fits 32 bits, signed. -/
theorem Integer.new_eq_iff {n : ℤ} : Integer.new n = n ↔ -2 ^ 31 ≤ n ∧ n < 2 ^ 31 := by
  simp only [Integer.new, Int.bmod_def]
  split_ifs <;> omega

end NodeFuse
