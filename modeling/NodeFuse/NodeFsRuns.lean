import NodeFuse.Lib.HashTable
import NodeFuse.Lib.Runs
import NodeFuse.NodeFsHandlers

/-!
# NodeFS over its requests

The requests to NodeFS, one after another, as a machine that keeps what the kernel was given besides
`tree` and the host. What a request does to `tree`, and which paths it gives the kernel, is read off
the request and the host (`writes`, `givenPaths`).
-/

namespace NodeFuse.NodeFs

open HashTable (Op lastAt)

def rootPath : JsString := "/tmp/".toList

/-- An inode the kernel was given for a path. -/
structure Given where
  path : JsString
  inode : ℤ

/-- A method called, and what libfuse returns for its replies. -/
structure Request where
  call : Call
  rc : ℕ → ℤ

structure State (W : Type) where
  tree : Tree
  world : W
  given : List Given
  /-- What was given for a path since that was last removed or renamed. -/
  live : List Given

def State.init {W : Type} (w : W) : State W := ⟨rootTree, w, [], []⟩

/-- A path as the start of those below it. -/
def asDirectory (path : JsString) : JsString :=
  if path.getLast? = some '/' then path else path ++ ['/']

def Below (dir path : JsString) : Prop := ∃ rest, rest ≠ [] ∧ path = asDirectory dir ++ rest

def Within (top path : JsString) : Prop := path = top ∨ Below top path

instance (dir path : JsString) : Decidable (Below dir path) :=
  decidable_of_iff (asDirectory dir <+: path ∧ path ≠ asDirectory dir) <| by
    refine ⟨fun h => ?_, fun h => ?_⟩
    · obtain ⟨⟨rest, rfl⟩, hne⟩ := h
      exact ⟨rest, fun hrest => hne (by rw [hrest, List.append_nil]), rfl⟩
    · obtain ⟨rest, hne, rfl⟩ := h
      exact ⟨List.prefix_append _ _, fun h => hne (List.append_right_eq_self.1 h)⟩

instance (top path : JsString) : Decidable (Within top path) :=
  inferInstanceAs (Decidable (_ ∨ _))

section Machine

variable {W : Type} (V : Platform) (D : DirentFormat) (H : Host W)

/-! ## What the kernel is given -/

/-- The path and the names of a directory. -/
def directory (inode : ℤ) (s : State W) : Option (JsString × List JsString) :=
  (s.tree inode).bind fun fspath => ((H.fs s.world).readdirSync fspath).map (fspath, ·)

/-- The path that an entry in a reply to the call is of. -/
def target (s : State W) : Call → Option JsString
  | .lookup parent name | .mkdir parent name _ | .symlink parent _ name | .create parent name _ _ =>
    join H (s.tree parent) name
  | .link _ newParent newName => join H (s.tree newParent) newName
  | _ => none

/-- The inodes in a reply, each with the path it is of. -/
def inodesIn (s : State W) (call : Call) : FuseReply → List Given
  | .entry e | .create e _ => (target H s call).toList.map fun path => ⟨path, e.ino.toNat⟩
  | .buf bytes =>
    match call with
    | .readdir inode _ _ =>
      match directory H inode s with
      | some (fspath, names) => (D.decode bytes).filterMap fun e =>
        ((entries names).find? fun name => name.utf8 = e.name).map fun name =>
          ⟨Path.join fspath name, e.ino.toNat⟩
      | none => []
    | _ => []
  | _ => []

/-- The kernel receives the first reply, if it can be sent. -/
def received (rc : ℕ → ℤ) (sent : List FuseReply) : Option FuseReply :=
  if rc 0 = 0 then sent.head? else none

/-- The path that the call removes or renames on the host, if the host does. -/
def removed (s : State W) : Call → Option JsString
  | .unlink parent name => do
    let fspath ← join H (s.tree parent) name
    guard ((H.unlinkSync fspath s.world).1.isSome)
    return fspath
  | .rmdir parent name => do
    let fspath ← join H (s.tree parent) name
    guard (H.rmdir fspath s.world).1
    return fspath
  | .rename parent name newParent newName => do
    let oldPath ← join H (s.tree parent) name
    let newPath ← join H (s.tree newParent) newName
    guard ((H.renameSync oldPath newPath s.world).1.isSome)
    return oldPath
  | _ => none

/-- The inodes in use that the call leaves in use. -/
def remaining (s : State W) (call : Call) : List Given :=
  s.live.filter fun g => ∀ top ∈ removed H s call, ¬ Within top g.path

def next (s : State W) (e : Request) : State W :=
  let after := serve V D H e.rc e.call s.tree s.world
  let given := (received e.rc after.reply.sent).toList.flatMap (inodesIn D H s e.call)
  { tree := after.tree
    world := after.world
    given := s.given ++ given
    live := remaining H s e.call ++ given }

def step (s : State W) (e : Request) : Option (State W) := some (next V D H s e)

/-! ## What a request does -/

/-- What was made on the host is stored, if the host says nothing and then has its stat. -/
def made (path : JsString) (result : Option Value) (stats : Option Stats) : Option JsString := do
  guard (¬ (← result).truthy)
  let _ ← stats
  return path

/-- The path that the call stores. -/
def stored (s : State W) (rc : ℕ → ℤ) : Call → Option JsString
  | .lookup parent name => do
    let fspath ← join H (s.tree parent) name
    let _ ← (H.fs s.world).lstatSync fspath
    guard (rc 0 ≠ -1)
    return fspath
  | .mkdir parent name mode => do
    let fspath ← join H (s.tree parent) name
    let (exception, w) := H.mkdirSync fspath mode s.world
    made fspath exception (H.statSync w fspath)
  | .link inode newParent newName => do
    let dstPath ← join H (s.tree newParent) newName
    let srcPath ← s.tree inode
    let (exception, w) := H.linkSync srcPath dstPath s.world
    made dstPath exception (H.statSync w dstPath)
  | .symlink parent link name => do
    let dstPath ← join H (s.tree parent) name
    let (exception, w) := H.symlinkSync link dstPath s.world
    made dstPath exception ((H.fs w).lstatSync dstPath)
  | .rename parent name newParent newName => do
    let oldPath ← join H (s.tree parent) name
    let newPath ← join H (s.tree newParent) newName
    guard ((H.renameSync oldPath newPath s.world).1.isSome ∧ rc 0 ≠ -1)
    return newPath
  | .create parent name mode _ => do
    let fspath ← join H (s.tree parent) name
    let (fd, w) := H.openSync fspath "w+" (some mode) s.world
    guard ((← fd) ≠ .nan)
    let _ ← H.statSync w fspath
    return fspath
  | _ => none

/-- The path that the call deletes. -/
def deleted (s : State W) : Call → Option JsString
  | .unlink parent name => do
    let fspath ← join H (s.tree parent) name
    guard (¬ (← (H.unlinkSync fspath s.world).1).truthy)
    return fspath
  | .rmdir parent name => join H (s.tree parent) name
  | _ => none

/-- The paths of a directory's entries. -/
def entryPaths (fspath : JsString) (names : List JsString) : List JsString :=
  (entries names).map (Path.join fspath)

/-- What a request does to `tree`. `readdir` goes through the entries up to the first without a
stat. -/
def writes (s : State W) (e : Request) : List (Op JsString) :=
  match e.call with
  | .readdir inode _ offset =>
    match directory H inode s with
    | some (fspath, names) =>
      if (entries names).length ≤ offset + 1 then []
      else ((entryPaths fspath names).takeWhile fun path =>
        ((H.fs s.world).lstatSync path).isSome).map .store
    | none => []
  | call => (stored H s e.rc call).toList.map .store ++ (deleted H s call).toList.map .erase

/-- The paths whose inodes the kernel is given. `readdir` gives all entries or none. -/
def givenPaths (s : State W) (e : Request) : List JsString :=
  if e.rc 0 = 0 then
    match e.call with
    | .readdir inode size offset =>
      match directory H inode s with
      | some (fspath, names) =>
        if (entries names).length ≤ offset + 1
          ∨ (∃ path ∈ entryPaths fspath names, (H.fs s.world).lstatSync path = none)
          ∨ Reply.requestedSize V.toRuntime (.fin size) < entriesSize (entries names) then []
        else entryPaths fspath names
      | none => []
    | .rename .. => []
    | call => (stored H s e.rc call).toList
  else []

/-! ## What inode numbers should do -/

/-- Inode numbers identify paths. -/
structure Identifies (s : State W) : Prop where
  root : s.tree 1 = some rootPath
  proper : ∀ g ∈ s.given, g.path ≠ rootPath → g.inode ≠ 0 ∧ g.inode ≠ 1
  found : ∀ g ∈ s.live, s.tree g.inode = some g.path
  apart : ∀ g ∈ s.live, ∀ g' ∈ s.live, g.inode = g'.inode → g.path = g'.path

/-- The paths in use after a request. -/
def livePaths (s : State W) (e : Request) : List JsString :=
  (remaining H s e.call).map Given.path ++ givenPaths V H s e

/-- No path that a request stores or deletes has hash 1, none that it gives has hash 0 but the root,
and what it does last under the hash of a path in use is to store that path. -/
structure Unshared (s : State W) (e : Request) : Prop where
  root : ∀ op ∈ writes H s e, hash op.item ≠ 1
  proper : ∀ path ∈ givenPaths V H s e, path ≠ rootPath → hash path ≠ 0
  kept : ∀ path ∈ livePaths V H s e, ∀ v,
    lastAt hash (hash path) (writes H s e) = some v → v = some path

/-! ## What the table is keyed by -/

/-- The root is under 1, whatever its hash. -/
def IsRoot (key : ℤ) (path : JsString) : Prop := key = 1 ∧ path = rootPath

/-- An entry that is replaced, and that is not excused, is replaced by one of the same hash. -/
def ReplacedAlike (excused : ℤ → JsString → Prop) (before after : Tree) : Prop :=
  ∀ key path path', before key = some path → after key = some path' →
    excused key path ∨ hash path' = hash path

/-! ## What a rename carries along -/

/-- `path` is `old` or below it, and `path'` the same from `new` on. -/
def Moved (old new path path' : JsString) : Prop :=
  (path = old ∧ path' = new) ∨ ∃ rest, rest ≠ [] ∧ path = asDirectory old ++ rest
    ∧ path' = asDirectory new ++ rest

/-- The kernel was given the inode. -/
def State.Knows (s : State W) (inode : ℤ) : Prop := ∃ g ∈ s.given, g.inode = inode

/-- The two paths of a rename that succeeds. -/
def renamed (s : State W) (e : Request) : Option (JsString × JsString) :=
  match e.call with
  | .rename parent name newParent newName => do
    let oldPath ← join H (s.tree parent) name
    let newPath ← join H (s.tree newParent) newName
    guard ((H.renameSync oldPath newPath s.world).1.isSome ∧ e.rc 0 = 0)
    return (oldPath, newPath)
  | _ => none

/-- The inodes that the kernel knows of the path and of those below it are moved along, and the
others keep their paths, unless these are replaced. -/
structure CarriedAlong (old new : JsString) (s s' : State W) : Prop where
  moved : ∀ inode path, s.tree inode = some path → s.Knows inode → Within old path →
    ∃ path', Moved old new path path' ∧ s'.tree inode = some path'
  others : ∀ inode path, s.tree inode = some path → ¬ (s.Knows inode ∧ Within old path) →
    ¬ Within new path → s'.tree inode = some path

def Carries (s : State W) (e : Request) : Prop :=
  ∀ old new, renamed H s e = some (old, new) → CarriedAlong old new s (next V D H s e)

/-- No inode the kernel knows leads to the path or below it, unless it is the one that the new path
hashes to and leads to the path itself, or its path is the same after the rename; and under the hash
of the new path there is no other path, unless it is one that is replaced or moved along. -/
structure NothingToCarry (old new : JsString) (s : State W) : Prop where
  moved : ∀ inode path, s.tree inode = some path → s.Knows inode → Within old path →
    (inode = hash new ∧ path = old) ∨ (inode ≠ hash new ∧ Moved old new path path)
  others : ∀ path, s.tree (hash new) = some path →
    (s.Knows (hash new) ∧ Within old path) ∨ Within new path

def NeedsNoCarrying (s : State W) (e : Request) : Prop :=
  ∀ old new, renamed H s e = some (old, new) → NothingToCarry old new s

/-! ## What a failure should lead to -/

/-- The operation on the host that the call asks for fails. -/
def Fails (s : State W) : Call → Prop
  | .mkdir parent name mode => ∃ fspath, join H (s.tree parent) name = some fspath
    ∧ (H.mkdirSync fspath mode s.world).1 = none
  | .unlink parent name => ∃ fspath, join H (s.tree parent) name = some fspath
    ∧ (H.unlinkSync fspath s.world).1 = none
  | .rmdir parent name => ∃ fspath, join H (s.tree parent) name = some fspath
    ∧ (H.rmdir fspath s.world).1 = false
  | .link inode newParent newName => ∃ dstPath, join H (s.tree newParent) newName = some dstPath
    ∧ ∀ srcPath, s.tree inode = some srcPath → (H.linkSync srcPath dstPath s.world).1 = none
  | .symlink parent link name => ∃ dstPath, join H (s.tree parent) name = some dstPath
    ∧ (H.symlinkSync link dstPath s.world).1 = none
  | .rename parent name newParent newName => ∃ oldPath newPath,
    join H (s.tree parent) name = some oldPath ∧ join H (s.tree newParent) newName = some newPath
    ∧ (H.renameSync oldPath newPath s.world).1 = none
  | .create parent name mode _ => ∃ fspath, join H (s.tree parent) name = some fspath
    ∧ (H.openSync fspath "w+" (some mode) s.world).1 = none
  | _ => False

/-- The request is replied to once, with an error, and `tree` stays as it is. -/
structure Reported (s : State W) (e : Request) : Prop where
  sent : ∃ code ≠ 0, (serve V D H e.rc e.call s.tree s.world).reply.sent = [.err code]
  tree : (serve V D H e.rc e.call s.tree s.world).tree = s.tree

end Machine

end NodeFuse.NodeFs
