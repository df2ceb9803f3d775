import NodeFuse.Conversions
import NodeFuse.Lib.Registers

/-!
# The file information of an open file

The accessors of `file_info.cc` for the writable properties, on the `fuse_file_info` behind a
`FileInfo`. What they throw does not end them: `FUSEJS_THROW_EXCEPTION` has no `return`.
-/

namespace NodeFuse

def FUSE_USE_VERSION : ℕ := 27

/-- `FUSEJS_THROW_EXCEPTION`. -/
def fusejsThrowException (err fuseErr : String) : JsError := .error (err ++ fuseErr)

namespace FileInfo

/-! ## Getters -/

def getDirectIO (fi : FuseFileInfo) : Value := .boolean fi.directIo

def getKeepCache (fi : FuseFileInfo) : Value := .boolean fi.keepCache

def getNonSeekable (fi : FuseFileInfo) : Value :=
  if FUSE_USE_VERSION > 27 then .boolean fi.nonseekable else .boolean false

def getFileHandle (fi : FuseFileInfo) : Value := .int (Integer.new fi.fh.toNat)

/-! ## Setters -/

def booleanExpected (value : Value) : Option JsError :=
  if value.isBoolean then none
  else some (fusejsThrowException "Invalid value type: " "a Boolean was expected")

def numberExpected (value : Value) : Option JsError :=
  if value.isNumber then none
  else some (fusejsThrowException "Invalid value type: " "a Number was expected")

def setDirectIO (value : Value) (fi : FuseFileInfo) : Option JsError × FuseFileInfo :=
  (booleanExpected value, { fi with directIo := value.isTrue })

def setKeepCache (value : Value) (fi : FuseFileInfo) : Option JsError × FuseFileInfo :=
  (booleanExpected value, { fi with keepCache := value.isTrue })

def setNonSeekable (value : Value) (fi : FuseFileInfo) : Option JsError × FuseFileInfo :=
  (booleanExpected value,
    if FUSE_USE_VERSION > 27 then { fi with nonseekable := value.isTrue } else fi)

def setFileHandle (V : Runtime) (value : Value) (fi : FuseFileInfo) :
    Option JsError × FuseFileInfo :=
  (numberExpected value, { fi with fh := (V.integerValue value).toUInt64 })

/-! ## The writable properties -/

inductive Property
  | directIo | keepCache | nonseekable | fh
  deriving DecidableEq

def get (fi : FuseFileInfo) : Property → Value
  | .directIo => getDirectIO fi
  | .keepCache => getKeepCache fi
  | .nonseekable => getNonSeekable fi
  | .fh => getFileHandle fi

def set (V : Runtime) (value : Value) (fi : FuseFileInfo) :
    Property → Option JsError × FuseFileInfo
  | .directIo => setDirectIO value fi
  | .keepCache => setKeepCache value fi
  | .nonseekable => setNonSeekable value fi
  | .fh => setFileHandle V value fi

/-- The values a well-typed assignment gives a property. -/
def Property.Takes (value : Value) : Property → Prop
  | .fh => ∃ n : ℤ, value = .int n ∧ 0 ≤ n ∧ n ≤ 2 ^ 53
  | .directIo | .keepCache | .nonseekable => ∃ b, value = .boolean b

/-- A well-typed assignment. -/
structure Assignment where
  property : Property
  value : Value
  typed : property.Takes value

def assign (V : Runtime) (fi : FuseFileInfo) (a : Assignment) : FuseFileInfo :=
  (set V a.value fi a.property).2

def assignAll (V : Runtime) (fi : FuseFileInfo) (as : List Assignment) : FuseFileInfo :=
  as.foldl (assign V) fi

/-- The value assigned to a property last, if one was. -/
def assigned (p : Property) (as : List Assignment) : Option Value :=
  Registers.last Assignment.property Assignment.value p as

/-! ## Assigning anything -/

/-- The file information after an assignment, whether it threw or not. -/
def write (V : Runtime) (fi : FuseFileInfo) (w : Property × Value) : FuseFileInfo :=
  (set V w.2 fi w.1).2

def writeAll (V : Runtime) (fi : FuseFileInfo) (ws : List (Property × Value)) : FuseFileInfo :=
  ws.foldl (write V) fi

/-- The assignments of a sequence that threw nothing where they were made. -/
def accepted (V : Runtime) : FuseFileInfo → List (Property × Value) → List (Property × Value)
  | _, [] => []
  | fi, (p, value) :: ws =>
    let (thrown, fi') := set V value fi p
    if thrown.isNone then (p, value) :: accepted V fi' ws else accepted V fi' ws

def Property.accepts (value : Value) : Property → Bool
  | .fh => value.isNumber
  | .directIo | .keepCache | .nonseekable => value.isBoolean

/-- The values a sequence assigns a property, those of another type left out. -/
def typed (ws : List (Property × Value)) : List (Property × Value) :=
  ws.filter fun w => w.1.accepts w.2

/-- Where the last value assigned to a property is of another type, the others leave the same there:
false, or the handle that the value makes as an integer. -/
structure RejectionsHarmless (V : Runtime) (fi : FuseFileInfo) (ws : List (Property × Value)) :
    Prop where
  flag : ∀ p w, p = .directIo ∨ p = .keepCache → Registers.last Prod.fst id p ws = some w →
    ¬ w.2.isBoolean →
      (Registers.last Prod.fst Prod.snd p (typed ws)).getD (get fi p) = .boolean false
  handle : ∀ w, Registers.last Prod.fst id .fh ws = some w → ¬ w.2.isNumber →
    (V.integerValue w.2).toUInt64 = ((Registers.last Prod.fst Prod.snd .fh (typed ws)).map
      fun value => (V.integerValue value).toUInt64).getD fi.fh

end FileInfo

end NodeFuse
