import NodeFuse.Accumulator
import NodeFuse.FileInfo

/-!
# The methods that end a request

The methods of `reply.cc` that JavaScript sees, but for `addDirEntry`. `none` is an operation on an
empty handle, which `ToObject` returns for `undefined` and `null`, or on the null pointer that `Unwrap`
returns for a `FileInfo` with nothing behind it. The decoders return 0, so what follows a return of -1
is left out.
-/

namespace NodeFuse

namespace Value

/-- `IsInt32`; it is false of `-0`, which is no number of its own here. -/
def isInt32 : Value → Bool
  | .number (.fin q) => q.den = 1 ∧ -2 ^ 31 ≤ q.num ∧ q.num < 2 ^ 31
  | _ => false

def int32Value : Value → Int32
  | .number (.fin q) => Int32.ofInt q.num
  | _ => 0

/-- `FileInfo::HasInstance`. -/
def isFileInfo : Value → Bool
  | .fileInfo _ | .hollowFileInfo => true
  | _ => false

/-- `Unwrap`: the structure behind an instance of `FileInfo`. -/
def fileInfo? : Value → Option FuseFileInfo
  | .fileInfo fi => some fi
  | _ => none

end Value

namespace ReplyMethods

open Reply (reply arg succeed room requestedSize next DirCall)

abbrev Outcome := Option (Except JsError Value × Reply)

variable (V : Platform) (rc : ℕ → ℤ)

def throwException (e : JsError) (r : Reply) : Outcome := some (.error e, r)

/-- Replies, and throws if the return code is -1. -/
def send (m : FuseReply) (r : Reply) : Outcome :=
  let (ret, r) := reply rc m r
  some (if ret = -1 then
    (.error (fusejsThrowException "Error replying operation: " V.strerror), r)
  else (.ok .undefined, r))

def argumentsExpected : JsError := .typeError "You must specify arguments to invoke this function"

/-- The first checks of a method: there are arguments, and the first one is of the type. -/
def checkFirst (is : Value → Bool) (expected : String) (args : List Value) (r : Reply)
    (go : Outcome) : Outcome :=
  if args.length = 0 then throwException argumentsExpected r
  else if ¬ is (arg args 0) then throwException (.typeError expected) r
  else go

/-- A `fuse_entry_param` on the stack: all of it but the nanoseconds is stored before it is sent. -/
def entryParam : FuseEntryParam := ⟨0, 0, V.stack, .nan, .nan⟩

def entry (args : List Value) (r : Reply) : Outcome :=
  checkFirst Value.isObject "You must specify an object as first argument" args r do
    let entry ← V.objectToFuseEntryParam (arg args 0) (entryParam V)
    send V rc (.entry entry) r

def attributes (args : List Value) (r : Reply) : Outcome :=
  checkFirst Value.isObject "You must specify an object as first argument" args r <|
    let statbuff := V.objectToStat (arg args 0) V.stack
    if args.length = 2 then
      if ¬ (arg args 1).isNumber then
        throwException (fusejsThrowException "Invalid timeout, "
          "it should be the number of seconds in which the attributes are considered valid.") r
      else send V rc (.attr statbuff (V.numberValue (arg args 1))) r
    else send V rc (.attr statbuff (.fin 0)) r

def readLink (args : List Value) (r : Reply) : Outcome :=
  checkFirst Value.isString "You must specify a string as first argument" args r <|
    send V rc (.readlink (arg args 0).utf8Value) r

def error (args : List Value) (r : Reply) : Outcome :=
  checkFirst Value.isInt32 "You must specify a number as first argument" args r <|
    send V rc (.err (arg args 0).int32Value) r

/-- The argument is made an object before it is looked at. -/
def «open» (args : List Value) (r : Reply) : Outcome :=
  if args.length = 0 then throwException argumentsExpected r
  else do
    let fiobj ← (arg args 0).toObject
    if ¬ fiobj.isFileInfo then
      throwException (.typeError "You must specify a FileInfo object as first argument") r
    else do
      let fi ← fiobj.fileInfo?
      send V rc (.open fi) r

def write (args : List Value) (r : Reply) : Outcome :=
  checkFirst Value.isNumber "You must specify the number of bytes written as first argument" args r <|
    send V rc (.write (V.integerValue (arg args 0)).toUInt64) r

/-- Every field of a `statvfs` is stored before it is sent. -/
def statFs (args : List Value) (r : Reply) : Outcome :=
  checkFirst Value.isObject "You must specify a object as first argument" args r <|
    send V rc (.statfs (V.objectToStatVfs (arg args 0) default)) r

def create (args : List Value) (r : Reply) : Outcome :=
  if args.length = 0 ∨ args.length < 2 then
    throwException (.typeError "You must specify at least two arguments to invoke this function") r
  else if ¬ (arg args 0).isObject then
    throwException (.typeError "You must specify an object as first argument") r
  else do
    let entry ← V.objectToFuseEntryParam (arg args 0) (entryParam V)
    let fiobj ← (arg args 1).toObject
    if ¬ fiobj.isFileInfo then
      throwException (.typeError "You must specify a FileInfo object as second argument") r
    else do
      let fi ← fiobj.fileInfo?
      send V rc (.create entry fi) r

/-- A `size_t` is made of the `int32_t`. -/
def xAttributes (args : List Value) (r : Reply) : Outcome :=
  checkFirst Value.isInt32 "You must specify a number as first argument" args r <|
    send V rc (.xattr (arg args 0).int32Value.toInt64.toUInt64) r

/-- The methods by the names JavaScript has for them. -/
inductive Method
  | entry | attr | readlink | err | open | buffer | write | statfs | create | xattr
  deriving DecidableEq

namespace Method

def call (args : List Value) (r : Reply) : Method → Outcome
  | .entry => ReplyMethods.entry V rc args r
  | .attr => attributes V rc args r
  | .readlink => readLink V rc args r
  | .err => error V rc args r
  | .open => ReplyMethods.open V rc args r
  | .buffer => some (Reply.buffer V.toRuntime rc args r)
  | .write => ReplyMethods.write V rc args r
  | .statfs => statFs V rc args r
  | .create => ReplyMethods.create V rc args r
  | .xattr => xAttributes V rc args r

/-! ## What the methods ask of their arguments -/

/-- The arguments are what the method takes. -/
def Accepts (args : List Value) : Method → Prop
  | .entry => (arg args 0).isObject ∧ ((arg args 0).get "attr").toObject.isSome
  | .attr => (arg args 0).isObject ∧ (args.length = 2 → (arg args 1).isNumber)
  | .readlink => (arg args 0).isString
  | .err | .xattr => (arg args 0).isInt32
  | .open => (arg args 0).fileInfo?.isSome
  | .buffer => (arg args 0).buffer?.isSome
  | .write => (arg args 0).isNumber
  | .statfs => (arg args 0).isObject
  | .create => (arg args 0).isObject ∧ ((arg args 0).get "attr").toObject.isSome
    ∧ (arg args 1).fileInfo?.isSome

/-- The value is an object, and if it is a `FileInfo` there is a structure behind it. -/
def Usable (v : Value) : Prop := v.toObject.isSome ∧ (v.isFileInfo → v.fileInfo?.isSome)

/-- No `undefined` or `null` is where the method takes an object without looking: the argument of
`open`, the `attr` of an entry and the second argument of `create`. Nor is a `FileInfo` hollow where a
method takes one. -/
def ObjectsGiven (args : List Value) : Method → Prop
  | .entry => (arg args 0).isObject → ((arg args 0).get "attr").toObject.isSome
  | .open => args ≠ [] → Usable (arg args 0)
  | .create => 2 ≤ args.length → (arg args 0).isObject →
    ((arg args 0).get "attr").toObject.isSome ∧ Usable (arg args 1)
  | .attr | .readlink | .err | .buffer | .write | .statfs | .xattr => True

end Method

/-! ## What the methods should keep to -/

/-- The file information that `fuse_reply_open` and `fuse_reply_create` send. -/
def sentFileInfo : FuseReply → Option FuseFileInfo
  | .open fi | .create _ fi => some fi
  | _ => none

/-- `reply.open(fi)` or `reply.create(entry, fi)` sent the reply. -/
def Opens (fi : FuseFileInfo) (msg : FuseReply) : Prop :=
  ∃ args r result r', r'.sent = r.sent ++ [msg]
    ∧ (arg args 0 = .fileInfo fi ∧ ReplyMethods.open V rc args r = some (result, r')
      ∨ arg args 1 = .fileInfo fi ∧ create V rc args r = some (result, r'))

/-- The call works on no empty handle or null pointer, and either throws without a reply or replies
once. -/
def SafeMethod (m : Method) (args : List Value) (r : Reply) : Prop :=
  ∃ result r', m.call V succeed args r = some (result, r')
    ∧ ((∃ e, result = .error e ∧ r' = r) ∨ ∃ msg, r' = { r with sent := r.sent ++ [msg] })

/-- A call that replies. -/
inductive Replying
  | method (m : Method) (args : List Value) (accepts : m.Accepts args)
  | addDirEntry (size : Num) (c : DirCall)

def Outcome.raises : Outcome → Bool
  | some (.error _, _) => true
  | _ => false

variable (D : DirentFormat)

/-- A method throws exactly when its reply was not sent, and an entry that does not fit is replied to
once when that fails. -/
def Reports (r : Reply) : Replying → Prop
  | .method m args _ => (m.call V rc args r).raises ↔ rc r.sent.length ≠ 0
  | .addDirEntry size c => room (requestedSize V.toRuntime size) r.dentryAccSize < c.size →
    rc r.sent.length ≠ 0 →
      (next V.toRuntime D rc size c r).sent.length = r.sent.length + 1

/-- The return code is 0 or -1, and not -1 for an entry that does not fit. -/
def Recognised (r : Reply) : Replying → Prop
  | .method _ _ _ => rc r.sent.length = 0 ∨ rc r.sent.length = -1
  | .addDirEntry size c => room (requestedSize V.toRuntime size) r.dentryAccSize < c.size →
    rc r.sent.length ≠ -1

end ReplyMethods

end NodeFuse
