import NodeFuse.Decoders
import NodeFuse.Dirent
import NodeFuse.FileSystem
import NodeFuse.Lib.Packing

/-!
# Replying to a directory read

`Reply::AddDirEntry` gathers entries in a block as large as its first call asked for, and
`Reply::Buffer` sends the block, or its argument when nothing was gathered. `rc` is what libfuse
returns for the replies on the request, in their order.
-/

namespace NodeFuse

/-- The calls of libfuse that reply to a request. -/
inductive FuseReply
  | buf (bytes : List UInt8)
  | err (code : Int32)
  | entry (e : FuseEntryParam)
  | attr (s : Stat) (timeout : Num)
  | readlink (link : List UInt8)
  | open (fi : FuseFileInfo)
  | write (count : UInt64)
  | statfs (s : StatVfs)
  | create (e : FuseEntryParam) (fi : FuseFileInfo)
  | xattr (count : UInt64)
  deriving DecidableEq

def EIO : Int32 := 5

/-- A `Reply`, with the replies sent on its request so far. -/
structure Reply where
  dentryAccSize : ℕ
  dentryCurLength : ℕ
  /-- Where `dentry_buffer` points: nowhere, or to the block `malloc` returned. -/
  dentryBuffer : Option (List UInt8)
  sent : List FuseReply
  deriving DecidableEq

namespace Value

/-- `String::Utf8Value` of a string, as a C string. -/
def utf8Value : Value → List UInt8
  | .string utf8 => cstring utf8
  | _ => []

def buffer? : Value → Option (List UInt8)
  | .buffer bytes => some bytes
  | _ => none

end Value

/-- What writing `bytes` at `pos` leaves of a block: nothing is stored past its end. -/
def writeAt (block : List UInt8) (pos : ℕ) (bytes : List UInt8) : List UInt8 :=
  (block.take pos ++ bytes ++ block.drop (pos + bytes.length)).take block.length

def Runtime.sizeValue (V : Runtime) (v : Value) : ℕ := (V.integerValue v).toUInt64.toNat

namespace Reply

def new : Reply := ⟨0, 0, none, []⟩

variable (V : Runtime) (D : DirentFormat) (rc : ℕ → ℤ)

def reply (m : FuseReply) (r : Reply) : ℤ × Reply :=
  (rc r.sent.length, { r with sent := r.sent ++ [m] })

def arg (args : List Value) (i : ℕ) : Value := args.getD i .undefined

def addDirEntry (args : List Value) (r : Reply) : Except JsError Value × Reply :=
  if args.length = 0 ∨ args.length < 4 then
    (.error (.typeError "You must specify five arguments to invoke this function"), r)
  else if ¬ (arg args 0).isString then
    (.error (.typeError "You must specify an entry name String as first argument"), r)
  else if ¬ (arg args 1).isNumber then
    (.error (.typeError "You must specify the requested size number as second argument"), r)
  else if ¬ (arg args 2).isObject then
    (.error (.typeError "You must specify stat Object as third argument"), r)
  else if ¬ (arg args 3).isNumber then
    (.error (.typeError "You must specify a offset number as fourth argument"), r)
  else
    let name := (arg args 0).utf8Value
    let requestedSize := V.sizeValue (arg args 1)
    let block := r.dentryBuffer.getD (V.malloc requestedSize)
    let entry := D.encode name (V.objectToStat (arg args 2) V.stack) (V.integerValue (arg args 3))
    let len := direntSize name.length
    let room := (requestedSize + 2 ^ 64 - r.dentryAccSize) % 2 ^ 64
    -- libfuse writes the entry only if it fits the room
    if len > room then
      let (ret, r) := reply rc (.buf []) { r with dentryBuffer := some block }
      (.ok .undefined, if ret = -1 then (reply rc (.err EIO) r).2 else r)
    else
      (.ok (.int (Integer.new len)), { r with
        dentryBuffer := some (writeAt block r.dentryAccSize entry)
        dentryAccSize := (r.dentryAccSize + len) % 2 ^ 64
        dentryCurLength := (r.dentryCurLength + 1) % 2 ^ 64 })

def buffer (args : List Value) (r : Reply) : Except JsError Value × Reply :=
  if args.length = 0 then
    (.error (.typeError "You must specify arguments to invoke this function"), r)
  else
    match (arg args 0).buffer? with
    | none => (.error (.typeError "You must specify a Buffer object as first argument"), r)
    | some data =>
      let payload :=
        if 0 < r.dentryAccSize then (r.dentryBuffer.getD []).take r.dentryAccSize else data
      let (ret, r) := reply rc (.buf payload) r
      if ret = -1 then (.error (.error ("Error replying operation: " ++ V.strerror)), r)
      else (.ok .undefined, r)

/-! ## A whole directory read -/

/-- The arguments of a well-typed `addDirEntry`, but for the size. -/
structure DirCall where
  name : List UInt8
  stat : Value
  offset : Num
  /-- Whatever follows the four arguments. -/
  extra : List Value
  isObject : stat.isObject = true

namespace DirCall

def args (size : Num) (c : DirCall) : List Value :=
  [.string c.name, .number size, c.stat, .number c.offset] ++ c.extra

def encoding (c : DirCall) : List UInt8 :=
  D.encode (cstring c.name) (V.objectToStat c.stat V.stack) (V.integerValue (.number c.offset))

def size (c : DirCall) : ℕ := direntSize (cstring c.name).length

end DirCall

def requestedSize (size : Num) : ℕ := V.sizeValue (.number size)

/-- libfuse's return codes when every reply is sent. -/
def succeed : ℕ → ℤ := fun _ => 0

def addAll (size : Num) : List DirCall → Reply → Reply
  | [], r => r
  | c :: cs, r => addAll size cs (addDirEntry V D rc (c.args size) r).2

/-- The replies sent on the request when `buffer(b)` follows the entries. -/
def answer (size : Num) (cs : List DirCall) (b : List UInt8) : List FuseReply :=
  (buffer V rc [.buffer b] (addAll V D rc size cs new)).2.sent

end Reply

end NodeFuse
