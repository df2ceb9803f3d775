import NodeFuse.Proxy

/-!
# The value of an extended attribute

libfuse passes the value of a `setxattr` as the place in its receive buffer where it begins, and its
length as another argument. `Proxy::SetXAttr` makes a string of what it finds there.
-/

namespace NodeFuse

/-- A `setxattr` request, and the memory when its proxy runs. -/
structure SetXAttr where
  mem : Mem
  req : VoidPtr
  ino : UInt64
  name : VoidPtr
  value : VoidPtr
  size : UInt64
  flags : Int32

namespace SetXAttr

variable {σ : Type*} (decode : List UInt8 → σ) (S : Session) (x : SetXAttr)

/-- The bytes of the value. -/
def sent : List UInt8 := (x.mem.chars x.value).take x.size.toNat

/-- The byte after the value, if the buffer goes on. -/
def following : Option UInt8 := (x.mem.chars x.value)[x.size.toNat]?

/-- The value argument of the method. -/
def given : Option Value :=
  match Proxy.invocations S x.mem
      (FileSystem.setXAttr x.req x.ino x.name x.value x.size x.flags) with
  | [i] => i.argv[3]?
  | _ => none

/-- The string the method sees, when V8 decodes the bytes of a C string by `decode`. -/
def string : Option σ :=
  match x.given S with
  | some (.string utf8) => some (decode utf8)
  | _ => none

/-- The method sees the string of the bytes sent, and of no others. -/
def Exact : Prop := ∀ w, x.string decode S = some (decode w) ↔ w = x.sent

end SetXAttr

end NodeFuse
