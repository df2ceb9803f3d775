import NodeFuse.FileSystem

/-!
# The options of a mount

`Fuse::Mount` passes the options from the second on to libfuse, as an array counted in `baton->argc`.
With fewer than three of them it stores `--help` at index 2 and counts one more.
-/

namespace NodeFuse

/-- A JavaScript array of strings, each of its UTF-8 bytes. Where nothing was stored it has a hole. -/
abbrev JsArray := List (Option (List UInt8))

namespace JsArray

def set (a : JsArray) (i : ℕ) (s : List UInt8) : JsArray :=
  List.set (a ++ List.replicate (i + 1 - a.length) none) i (some s)

def «undefined» : List UInt8 := "undefined".toList.flatMap String.utf8EncodeChar

/-- `Get(i)->ToString()`. -/
def getString (a : JsArray) (i : ℕ) : List UInt8 := (a[i]?.getD none).getD «undefined»

end JsArray

namespace Options

def help : List UInt8 := "--help".toList.flatMap String.utf8EncodeChar

/-- `fuse_opt_add_arg`, which copies a C string. -/
def fuseOptAddArg (fargs : List (List UInt8)) (option : List UInt8) : List (List UInt8) :=
  fargs ++ [cstring option]

/-- The loop over the options. -/
def addOptions (options : JsArray) (argc : Int32) : List (List UInt8) :=
  (List.range' 1 (argc.toInt - 1).toNat).foldl
    (fun fargs i => fuseOptAddArg fargs (options.getString i)) []

/-- The arguments `Fuse::Mount` builds. `argc` is an `int`, and the length of an array below
`2 ^ 32`. -/
def mount (options : JsArray) : List (List UInt8) :=
  let argc := Int32.ofNat options.length
  if argc < 3 then addOptions (options.set 2 help) (argc + 1) else addOptions options argc

/-- The strings of an array. -/
structure Given where
  strings : List (List UInt8)
  length_lt : strings.length < 2 ^ 32

namespace Given

def array (options : Given) : JsArray := options.strings.map some

def passed (options : Given) : List (List UInt8) := mount options.array

/-- The options from the second on, and `--help` after fewer than three. -/
def expected (options : Given) : List (List UInt8) :=
  options.strings.drop 1 ++ if options.strings.length < 3 then [help] else []

/-- The arguments are the options as expected, and nothing else. -/
structure Faithful (options : Given) : Prop where
  passed_eq : options.passed = options.expected
  known : ∀ arg ∈ options.passed, arg ∈ options.strings ∨ arg = help

end Given

end Options

end NodeFuse
