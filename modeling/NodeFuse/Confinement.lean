import NodeFuse.NodeFsRuns

/-!
# Staying below /tmp

NodeFS serves `test_path`, and its paths are made by `path.join` of paths it has and names. An absolute
path is taken here for the parts that lead to it, with `.` and `..` worked off, and what two hosts have
in common below `test_path` is all that should matter.
-/

namespace NodeFuse

/-! ## Absolute paths -/

/-- A part of a path that leads to an entry of the directory before it. -/
structure Plain (part : JsString) : Prop where
  ne_nil : part ≠ []
  no_slash : '/' ∉ part
  ne_dot : part ≠ ['.']
  ne_dotdot : part ≠ ['.', '.']

instance (part : JsString) : Decidable (Plain part) :=
  decidable_of_iff (part ≠ [] ∧ '/' ∉ part ∧ part ≠ ['.'] ∧ part ≠ ['.', '.'])
    ⟨fun ⟨h1, h2, h3, h4⟩ => ⟨h1, h2, h3, h4⟩, fun ⟨h1, h2, h3, h4⟩ => ⟨h1, h2, h3, h4⟩⟩

structure AbsPath where
  parts : List JsString
  plain : ∀ part ∈ parts, Plain part

namespace AbsPath

def child (p : AbsPath) (name : JsString) (h : Plain name) : AbsPath where
  parts := p.parts ++ [name]
  plain part hpart := by
    rcases List.mem_append.1 hpart with hpart | hpart
    · exact p.plain part hpart
    · rw [List.mem_singleton.1 hpart]
      exact h

/-- The root is its own parent. -/
def parent (p : AbsPath) : AbsPath where
  parts := p.parts.dropLast
  plain part hpart := p.plain part (List.dropLast_subset _ hpart)

end AbsPath

namespace Path

def parts (path : JsString) : List JsString := (path.splitOn '/').filter (· ≠ [])

/-- The string is an absolute path with these parts, however many slashes are between them. -/
structure Leads (path : JsString) (p : AbsPath) : Prop where
  absolute : path.head? = some '/'
  parts : parts path = p.parts

end Path

namespace NodeFs

/-! ## What is below the served directory -/

def tmp : JsString := "tmp".toList

def Inside (path : JsString) : Prop := ∃ p, Path.Leads path p ∧ [tmp] <+: p.parts

/-- The names a call brings along. -/
def names : Call → List JsString
  | .lookup _ name | .mkdir _ name _ | .unlink _ name | .rmdir _ name | .symlink _ _ name
  | .create _ name _ _ => [name]
  | .link _ _ newName => [newName]
  | .rename _ name _ newName => [name, newName]
  | _ => []

section Hosts

variable {W : Type}

def Confined (s : State W) : Prop := ∀ key path, s.tree key = some path → Inside path

/-- The entries of the served directory itself are listed, `..` among them. -/
def ListsTop (H : Host W) (s : State W) (e : Request) : Prop :=
  match e.call with
  | .readdir inode _ offset => ∃ fspath names, directory H inode s = some (fspath, names)
    ∧ ¬ (entries names).length ≤ offset + 1 ∧ Path.parts fspath = [tmp]
  | _ => False

/-- Two hosts with nothing to tell them apart below the served directory. A path that is `undefined` is
no path that they would join anything to. -/
structure SameInside (H H' : Host W) : Prop where
  lstatSync : ∀ w path, Inside path → (H.fs w).lstatSync path = (H'.fs w).lstatSync path
  readdirSync : ∀ w path, Inside path → (H.fs w).readdirSync path = (H'.fs w).readdirSync path
  statSync : ∀ w path, Inside path → H.statSync w path = H'.statSync w path
  readlinkSync : ∀ w path, Inside path → H.readlinkSync w path = H'.readlinkSync w path
  readFileSync : ∀ w path, Inside path → H.readFileSync w path = H'.readFileSync w path
  mkdirSync : ∀ path, Inside path → H.mkdirSync path = H'.mkdirSync path
  unlinkSync : ∀ path, Inside path → H.unlinkSync path = H'.unlinkSync path
  rmdir : ∀ path, Inside path → H.rmdir path = H'.rmdir path
  linkSync : ∀ src dst, Inside src → Inside dst → H.linkSync src dst = H'.linkSync src dst
  symlinkSync : ∀ target path, Inside path → H.symlinkSync target path = H'.symlinkSync target path
  renameSync : ∀ old new, Inside old → Inside new → H.renameSync old new = H'.renameSync old new
  chmodSync : ∀ path, Inside path → H.chmodSync path = H'.chmodSync path
  openSync : ∀ path, Inside path → H.openSync path = H'.openSync path
  writeSync : H.writeSync = H'.writeSync
  read : H.read = H'.read
  joinUndefined : ∀ name, H.joinUndefined name = none ∧ H'.joinUndefined name = none

end Hosts

end NodeFs

end NodeFuse
