import Mathlib.Logic.Function.Basic
import NodeFuse.Proxy
import NodeFuse.Reply

/-!
# NodeFS

The example filesystem of `nodefs.js` serves a directory of the host. It finds the path of an inode
in `tree`, where every path it comes across is stored under its hash. `Fs` is what node's `fs` gives
while nothing in the host's directories changes.
-/

namespace NodeFuse

/-- A JavaScript string without lone surrogates, as node makes one of a file name. -/
abbrev JsString := List Char

namespace JsString

def utf8 (s : JsString) : List UInt8 := s.flatMap String.utf8EncodeChar

/-- The code units `charCodeAt` gives for a character. -/
def codeUnits (c : Char) : List ℕ :=
  if c.toNat < 0x10000 then [c.toNat]
  else [0xD800 + (c.toNat - 0x10000) / 0x400, 0xDC00 + (c.toNat - 0x10000) % 0x400]

end JsString

/-! ## node's path -/

namespace Path

/-- `normalizeArray`: from the last part on, each `..` takes the part before it away. What is left
over, `up`, is kept where `allowAboveRoot`. -/
def normalizeArray (parts : List JsString) (allowAboveRoot : Bool) : List JsString :=
  let (kept, up) := parts.foldr (fun last (kept, up) =>
    if last = ['.'] then (kept, up)
    else if last = ['.', '.'] then (kept, up + 1)
    else if up ≠ 0 then (kept, up - 1)
    else (last :: kept, up)) (([], 0) : List JsString × ℕ)
  if allowAboveRoot then List.replicate up ['.', '.'] ++ kept else kept

def normalize (path : JsString) : JsString :=
  let isAbsolute := path.head? = some '/'
  let trailingSlash := path.getLast? = some '/'
  let parts := (path.splitOn '/').filter (· ≠ [])
  let path := ['/'].intercalate (normalizeArray parts (¬ isAbsolute))
  let path := if path = [] ∧ ¬ isAbsolute then ['.'] else path
  let path := if path ≠ [] ∧ trailingSlash then path ++ ['/'] else path
  if isAbsolute then '/' :: path else path

def join (a b : JsString) : JsString :=
  normalize (['/'].intercalate ([a, b].filter (· ≠ [])))

example : join "/tmp/".toList "..".toList = ['/'] := by decide
example : join "/tmp/a".toList ".".toList = "/tmp/a".toList := by decide

end Path

/-! ## The filesystem -/

/-- node's `fs` on directories that do not change; `none` is a call that throws. -/
structure Fs where
  readdirSync : JsString → Option (List JsString)
  lstatSync : JsString → Option (List (String × Value))
  names_valid : ∀ path names, readdirSync path = some names → ∀ name ∈ names, EntryName name.utf8

/-- `self.tree`, by number. -/
abbrev Tree := ℤ → Option JsString

namespace NodeFs

def rootTree : Tree := Function.update (fun _ => none) 1 (some "/tmp/".toList)

/-- `self.hash`. The difference and the sum are exact, and `hash & hash` takes them to 32 bits. -/
def hash (str : JsString) : ℤ :=
  ((str.flatMap JsString.codeUnits).foldl
    (fun (hash : Int32) c => (hash <<< 5) - hash + Int32.ofNat c) 0).toInt.natAbs

example : hash "/tmp/".toList = 46969511 := by decide

variable (V : Runtime) (D : DirentFormat) (fs : Fs) (rc : ℕ → ℤ)

open Reply (addDirEntry buffer succeed)

def entries (names : List JsString) : List JsString := [['.', '.'], ['.']] ++ names

/-- The loop of `readdir` from its `i`-th turn on, and the reply after it. A call of `lstatSync` that
throws leaves `readdir`. -/
def readdirLoop (fspath : JsString) (size offset : ℤ) :
    ℕ → List JsString → Tree × Reply → Tree × Reply
  | _, [], (tree, reply) => (tree, (buffer V rc [.buffer []] reply).2)
  | i, entry :: rest, (tree, reply) =>
    match fs.lstatSync (Path.join fspath entry) with
    | none => (tree, reply)
    | some stat =>
      let entryPath := Path.join fspath entry
      let entryInode := hash entryPath
      let tree := Function.update tree entryInode (some entryPath)
      let stat := (Value.object stat).set "inode" (.int entryInode)
      readdirLoop fspath size offset (i + 1) rest (tree,
        (addDirEntry V D rc [.string entry.utf8, .int size, stat, .int (offset + i)] reply).2)

/-- `NodeFS.readdir` with a fresh `Reply`. Without a path `readdirSync` throws. -/
def readdir (inode size offset : ℤ) (tree : Tree) : Tree × Reply :=
  match (tree inode).bind fun fspath => (fs.readdirSync fspath).map (fspath, ·) with
  | none => (tree, .new)
  | some (fspath, names) =>
    if (entries names).length ≤ offset + 1 then
      (tree, (buffer V rc [.buffer []] .new).2)
    else readdirLoop V D fs rc fspath size offset 0 (entries names) (tree, .new)

/-! ## The kernel's enumeration -/

/-- `readdir` on a request of the kernel, with the numbers `Proxy::ReadDir` makes of its own. -/
def serveReaddir (ino size : UInt64) (off : Int64) (tree : Tree) : Tree × Reply :=
  readdir V D fs succeed (Number.new ino.toNat) (Integer.new size.toNat) (Integer.new off.toInt) tree

/-- What the kernel receives when it reads the directory from `off` on until a reply is empty, in at
most so many requests; `none` if there are more, or one is not answered with a buffer it can go on
from. -/
def enumerate (ino size : UInt64) : ℕ → Int64 → Tree → Option (List Entry)
  | 0, _, _ => none
  | fuel + 1, off, tree =>
    match (serveReaddir V D fs ino size off tree).2.sent.head? with
    | some (.buf []) => some []
    | some (.buf bytes) => do
      let last ← (D.decode bytes).getLast?
      let more ← enumerate ino size fuel last.off (serveReaddir V D fs ino size off tree).1
      return D.decode bytes ++ more
    | _ => none

/-- The enumeration of the directory ends, and has received `..`, `.` and the names once each. -/
def Complete (ino size : UInt64) (tree : Tree) (names : List JsString) : Prop :=
  ∃ fuel es, enumerate V D fs ino size fuel 0 tree = some es
    ∧ (es.map Entry.name).Perm ((entries names).map JsString.utf8)

/-! ## What it takes -/

def entriesSize (names : List JsString) : ℕ :=
  Packing.total (fun name => direntSize (JsString.utf8 name).length) names

/-- The path a key of `tree` leads to when the paths of the entries were stored after it led to
`fspath`. -/
def pathAfter (fspath : JsString) (names : List JsString) (key : ℤ) : JsString :=
  match names.reverse.find? fun name => hash (Path.join fspath name) = key with
  | none => fspath
  | some name => Path.join fspath name

/-- Every entry has a stat, all entries fit one reply, and the request after that reads a directory
that has no entry beyond, or whose entries with a stat overflow the reply. The block of the size asked
for is allocated: a kernel asks for less than `2 ^ 31` bytes. -/
structure FitsOneReply (ino size : UInt64) (fspath : JsString) (names : List JsString) : Prop where
  stats : ∀ name ∈ entries names, (fs.lstatSync (Path.join fspath name)).isSome
  fits : entriesSize (entries names)
    ≤ Reply.requestedSize V (.fin (Integer.new size.toNat))
  ends : ∃ names', fs.readdirSync (pathAfter fspath (entries names) (Number.new ino.toNat))
      = some names'
    ∧ ((entries names').length ≤ Integer.new ((entries names).length - 1) + 1
      ∨ Reply.requestedSize V (.fin (Integer.new size.toNat))
        < entriesSize ((entries names').takeWhile fun name => (fs.lstatSync (Path.join
          (pathAfter fspath (entries names) (Number.new ino.toNat)) name)).isSome))

end NodeFs

end NodeFuse
