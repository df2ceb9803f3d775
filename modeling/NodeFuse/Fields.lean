import NodeFuse.Decoders
import NodeFuse.Lib.FieldWise

/-!
# The fields of the decoded structures

Every decoder fills each field from one property, by one of five conversions (`Conversion`). The
tables below name, for each field, the property it is read from, the conversion and how the field
reads in the structure; the property a field is named after is the same but for `f_frsize`.
-/

namespace NodeFuse

/-! ## Conversions -/

/-- How a property becomes the content of a field. -/
inductive Conversion
  /-- `IntegerValue` stored in an integer type. -/
  | integer (type : IntType)
  /-- `NumberValue` stored in an `off_t`. -/
  | offset
  /-- `NumberValue` stored in an `unsigned long`. -/
  | unsignedLong
  /-- `NumberValue` stored in a `double`. -/
  | double
  /-- `NODE_V8_UNIXTIME` stored in a `time_t`. -/
  | unixtime
  deriving DecidableEq

/-- The double is one the integer type can be cast to. -/
def Num.InRange (t : IntType) : Num → Prop
  | .fin q => t.Fits (trunc q)
  | _ => False

/-- The number that `IntegerValue` casts. -/
def Runtime.integerSource (V : Runtime) : Value → Num
  | .number x => x
  | v => (V.toNumber v).toInteger

namespace Platform

variable (V : Platform)

/-- What a field holds after the store. -/
def store (v : Value) : Conversion → Num
  | .integer t => .fin (t.wrap (V.integerValue v).toInt : ℤ)
  | .offset => .fin ((V.castInt64 (V.numberValue v)).toInt : ℤ)
  | .unsignedLong => .fin ((V.castUInt64 (V.numberValue v)).toNat : ℤ)
  | .double => V.numberValue v
  | .unixtime => .fin ((V.nodeV8Unixtime v).toInt : ℤ)

/-- The store casts no double that its integer type has no value for. `IntegerValue` casts to an
`int64_t` and leaves the rest to integers. -/
def Defined (v : Value) : Conversion → Prop
  | .integer _ => (V.integerSource v).InRange .int64
  | .offset => (V.numberValue v).InRange .int64
  | .unsignedLong => (V.numberValue v).InRange .uint64
  | .double => True
  | .unixtime => (V.numberValue v).div1000.InRange .int64

end Platform

/-! ## Fields -/

inductive StatField
  | dev | ino | mode | nlink | uid | gid | rdev | size | blksize | blocks | atime | mtime | ctime
  deriving DecidableEq

namespace StatField

def property : StatField → String
  | dev => "dev" | ino => "inode" | mode => "mode" | nlink => "nlink" | uid => "uid"
  | gid => "gid" | rdev => "rdev" | size => "size" | blksize => "blksize" | blocks => "blocks"
  | atime => "atime" | mtime => "mtime" | ctime => "ctime"

def conversion : StatField → Conversion
  | dev | ino | nlink | rdev => .integer .uint64
  | mode | uid | gid => .integer .uint32
  | blksize | blocks => .integer .int64
  | size => .offset
  | atime | mtime | ctime => .unixtime

def read (s : Stat) : StatField → Num
  | dev => .fin (s.dev.toNat : ℤ)
  | ino => .fin (s.ino.toNat : ℤ)
  | mode => .fin (s.mode.toNat : ℤ)
  | nlink => .fin (s.nlink.toNat : ℤ)
  | uid => .fin (s.uid.toNat : ℤ)
  | gid => .fin (s.gid.toNat : ℤ)
  | rdev => .fin (s.rdev.toNat : ℤ)
  | size => .fin (s.size.toInt : ℤ)
  | blksize => .fin (s.blksize.toInt : ℤ)
  | blocks => .fin (s.blocks.toInt : ℤ)
  | atime => .fin (s.atime.toInt : ℤ)
  | mtime => .fin (s.mtime.toInt : ℤ)
  | ctime => .fin (s.ctime.toInt : ℤ)

end StatField

inductive StatVfsField
  | bsize | frsize | blocks | bfree | bavail | files | ffree | favail | fsid | flag | namemax
  deriving DecidableEq

namespace StatVfsField

/-- The property a field is named after. -/
def name : StatVfsField → String
  | bsize => "bsize" | frsize => "frsize" | blocks => "blocks" | bfree => "bfree"
  | bavail => "bavail" | files => "files" | ffree => "ffree" | favail => "favail"
  | fsid => "fsid" | flag => "flag" | namemax => "namemax"

/-- The property a field is read from. -/
def property : StatVfsField → String
  | frsize => "blocks"
  | f => f.name

def conversion : StatVfsField → Conversion
  | bsize | frsize | favail | fsid | flag | namemax => .unsignedLong
  | blocks | bfree | bavail | files | ffree => .integer .uint64

def read (s : StatVfs) : StatVfsField → Num
  | bsize => .fin (s.bsize.toNat : ℤ)
  | frsize => .fin (s.frsize.toNat : ℤ)
  | blocks => .fin (s.blocks.toNat : ℤ)
  | bfree => .fin (s.bfree.toNat : ℤ)
  | bavail => .fin (s.bavail.toNat : ℤ)
  | files => .fin (s.files.toNat : ℤ)
  | ffree => .fin (s.ffree.toNat : ℤ)
  | favail => .fin (s.favail.toNat : ℤ)
  | fsid => .fin (s.fsid.toNat : ℤ)
  | flag => .fin (s.flag.toNat : ℤ)
  | namemax => .fin (s.namemax.toNat : ℤ)

end StatVfsField

inductive FlockField
  | type | whence | start | len | pid
  deriving DecidableEq

namespace FlockField

def property : FlockField → String
  | type => "type" | whence => "whence" | start => "start" | len => "len" | pid => "pid"

def conversion : FlockField → Conversion
  | type | whence => .integer .int16
  | start | len => .integer .int64
  | pid => .integer .int32

def read (l : Flock) : FlockField → Num
  | type => .fin (l.type.toInt : ℤ)
  | whence => .fin (l.whence.toInt : ℤ)
  | start => .fin (l.start.toInt : ℤ)
  | len => .fin (l.len.toInt : ℤ)
  | pid => .fin (l.pid.toInt : ℤ)

end FlockField

/-- The fields of an entry, with those of its `attr`. -/
inductive EntryField
  | ino | generation | attrTimeout | entryTimeout
  | attr (f : StatField)
  deriving DecidableEq

namespace EntryField

/-- What the field is read from. -/
def value (obj : Value) : EntryField → Value
  | ino => obj.get "inode"
  | generation => obj.get "generation"
  | attrTimeout => obj.get "attr_timeout"
  | entryTimeout => obj.get "entry_timeout"
  | attr f => (obj.get "attr").get f.property

def conversion : EntryField → Conversion
  | ino | generation => .integer .uint64
  | attrTimeout | entryTimeout => .double
  | attr f => f.conversion

def read (e : FuseEntryParam) : EntryField → Num
  | ino => .fin (e.ino.toNat : ℤ)
  | generation => .fin (e.generation.toNat : ℤ)
  | attrTimeout => e.attrTimeout
  | entryTimeout => e.entryTimeout
  | attr f => f.read e.attr

end EntryField

/-! ## The decoders together -/

inductive Decoder
  | stat | statVfs | flock | fuseEntryParam
  deriving DecidableEq

namespace Decoder

def Struct : Decoder → Type
  | stat => Stat
  | statVfs => StatVfs
  | flock => Flock
  | fuseEntryParam => FuseEntryParam

def Field : Decoder → Type
  | stat => StatField
  | statVfs => StatVfsField
  | flock => FlockField
  | fuseEntryParam => EntryField

/-- The structure the decoder makes of one that holds something already, if it makes one. -/
def decode (V : Platform) : (d : Decoder) → Value → d.Struct → Option d.Struct
  | stat, obj, s => some (V.objectToStat obj s)
  | statVfs, obj, s => some (V.objectToStatVfs obj s)
  | flock, obj, s => some (V.objectToFlock obj s)
  | fuseEntryParam, obj, s => V.objectToFuseEntryParam obj s

/-- The value the field is named after. -/
def named : (d : Decoder) → Value → d.Field → Value
  | stat, obj, f => obj.get (StatField.property f)
  | statVfs, obj, f => obj.get (StatVfsField.name f)
  | flock, obj, f => obj.get (FlockField.property f)
  | fuseEntryParam, obj, f => EntryField.value obj f

/-- The value the field is read from. -/
def value : (d : Decoder) → Value → d.Field → Value
  | stat, obj, f => obj.get (StatField.property f)
  | statVfs, obj, f => obj.get (StatVfsField.property f)
  | flock, obj, f => obj.get (FlockField.property f)
  | fuseEntryParam, obj, f => EntryField.value obj f

def conversion : (d : Decoder) → d.Field → Conversion
  | stat, f => StatField.conversion f
  | statVfs, f => StatVfsField.conversion f
  | flock, f => FlockField.conversion f
  | fuseEntryParam, f => EntryField.conversion f

def read : (d : Decoder) → d.Struct → d.Field → Num
  | stat, s, f => StatField.read s f
  | statVfs, s, f => StatVfsField.read s f
  | flock, s, f => FlockField.read s f
  | fuseEntryParam, s, f => EntryField.read s f

end Decoder

/-! ## What is asked of the fields -/

/-- What the property of a field may be for the field to hold it. -/
def Conversion.Holds (n : ℤ) : Conversion → Prop
  | .integer t => t.Fits n
  | .offset => IntType.int64.Fits n
  | .unsignedLong => IntType.uint64.Fits n
  | .double => True
  | .unixtime => 1000 ∣ n

instance (n : ℤ) : (c : Conversion) → Decidable (c.Holds n)
  | .integer t => inferInstanceAs (Decidable (t.Fits n))
  | .offset => inferInstanceAs (Decidable (IntType.int64.Fits n))
  | .unsignedLong => inferInstanceAs (Decidable (IntType.uint64.Fits n))
  | .double => inferInstanceAs (Decidable True)
  | .unixtime => inferInstanceAs (Decidable (1000 ∣ n))

/-- The numbers a field is given: integers up to `2 ^ 53` that the field can hold, and times in
whole seconds. -/
def Conversion.domain (c : Conversion) : Set Value :=
  {v | ∃ n : ℤ, v = .int n ∧ |n| ≤ 2 ^ 53 ∧ c.Holds n}

namespace Decoder

variable (V : Platform) (d : Decoder)

/-- Every field is named after a number of its domain. -/
def InDomain (obj : Value) : Prop := ∀ f, d.named obj f ∈ (d.conversion f).domain

/-- Of two objects, the field tells the property it is named after, and nothing else. -/
def OwnProperty (o₁ o₂ : Value) (f : d.Field) : Prop :=
  ∀ s₁ s₂ t₁ t₂, d.decode V o₁ s₁ = some t₁ → d.decode V o₂ s₂ = some t₂ →
    (d.named o₁ f = d.named o₂ f → d.read t₁ f = d.read t₂ f)
      ∧ (d.named o₁ f ≠ d.named o₂ f → d.read t₁ f ≠ d.read t₂ f)

/-- If the field is `f_frsize`, the objects agree in `frsize` exactly when they do in `blocks`. -/
def FrsizeWithBlocks (o₁ o₂ : Value) : (d : Decoder) → d.Field → Prop
  | statVfs, f => f = StatVfsField.frsize →
    (o₁.get "frsize" = o₂.get "frsize" ↔ o₁.get "blocks" = o₂.get "blocks")
  | stat, _ | flock, _ | fuseEntryParam, _ => True

end Decoder

/-! ## Objects with absent properties -/

/-- A property that is absent or a finite number. -/
def Value.Plain (v : Value) : Prop := v = .undefined ∨ ∃ q, v = .number (.fin q)

/-- The decoder makes a structure, casts no double to an integer type without a value for it, and
leaves 0 in a field where the property it is named after is absent. -/
def Decoder.DefinedOn (V : Platform) (d : Decoder) (obj : Value) : Prop :=
  ∀ s, ∃ t, d.decode V obj s = some t ∧ ∀ f, V.Defined (d.value obj f) (d.conversion f)
    ∧ (d.named obj f = .undefined → d.read t f = .fin 0)

/-- A number that the integer type can hold, once divided. -/
def Value.Fits (v : Value) (t : IntType) (divisor : ℚ) : Prop :=
  ∃ q : ℚ, v = .number (.fin q) ∧ t.Fits (Num.trunc (q / divisor))

section Decodable

variable (obj : Value)

/-- The properties that are there have an `int64_t` for an integral part. -/
def IntegersInRange (properties : List String) : Prop :=
  ∀ p ∈ properties, ∀ x, obj.get p = .number x → x.InRange .int64

structure StatDecodable : Prop where
  size : (obj.get "size").Fits .int64 1
  times : ∀ p ∈ ["atime", "mtime", "ctime"], (obj.get p).Fits .int64 1000
  integers : IntegersInRange obj
    ["dev", "inode", "mode", "nlink", "uid", "gid", "rdev", "blksize", "blocks"]

structure StatVfsDecodable : Prop where
  longs : ∀ p ∈ ["bsize", "blocks", "favail", "fsid", "flag", "namemax"],
    (obj.get p).Fits .uint64 1
  integers : IntegersInRange obj ["blocks", "bfree", "bavail", "files", "ffree"]
  /-- `f_frsize` is stored from `blocks`. -/
  frsize : obj.get "frsize" = .undefined →
    ∀ q, obj.get "blocks" = .number (.fin q) → Num.trunc q = 0

structure EntryDecodable : Prop where
  timeouts : ∀ p ∈ ["attr_timeout", "entry_timeout"], obj.get p ≠ .undefined
  integers : IntegersInRange obj ["inode", "generation"]
  attr : StatDecodable (obj.get "attr")

def Decoder.Decodable : Decoder → Prop
  | stat => StatDecodable obj
  | statVfs => StatVfsDecodable obj
  | flock => IntegersInRange obj ["type", "whence", "start", "len", "pid"]
  | fuseEntryParam => EntryDecodable obj

end Decodable

/-! ## Attributes that are set -/

inductive SetAttr
  | mode | uid | gid | size | atime | mtime
  deriving DecidableEq

namespace SetAttr

def flag : SetAttr → Int32
  | mode => FUSE_SET_ATTR_MODE | uid => FUSE_SET_ATTR_UID | gid => FUSE_SET_ATTR_GID
  | size => FUSE_SET_ATTR_SIZE | atime => FUSE_SET_ATTR_ATIME | mtime => FUSE_SET_ATTR_MTIME

def field : SetAttr → StatField
  | mode => .mode | uid => .uid | gid => .gid | size => .size | atime => .atime | mtime => .mtime

def all : List SetAttr := [mode, uid, gid, size, atime, mtime]

def key (a : SetAttr) : String := a.field.property

end SetAttr

end NodeFuse
