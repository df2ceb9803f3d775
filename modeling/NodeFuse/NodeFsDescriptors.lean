import NodeFuse.NodeFsRuns

/-!
# The descriptors of NodeFS

`open` and `create` open a file on the host each time, `release` only replies, and nothing in
`nodefs.js` closes a file. A process has room for a number of descriptors only.
-/

namespace NodeFuse.NodeFs

variable {W : Type} (H : Host W)

/-- A host with room for so many descriptors, of which `used` are in use. Once there is no room, no file
is opened, and no file or directory is read by its path; a descriptor is taken up by opening a file and
by nothing else. -/
structure Limited (room : ℕ) (used : W → ℕ) : Prop where
  openSync_some : ∀ path flags mode w, (H.openSync path flags mode w).1.isSome →
    used w < room ∧ used (H.openSync path flags mode w).2 = used w + 1
  openSync_none : ∀ path flags mode w, (H.openSync path flags mode w).1 = none →
    used (H.openSync path flags mode w).2 = used w
  readFileSync : ∀ w path, room ≤ used w → H.readFileSync w path = none
  readdirSync : ∀ w path, room ≤ used w → (H.fs w).readdirSync path = none
  mkdirSync : ∀ path mode w, used (H.mkdirSync path mode w).2 = used w
  unlinkSync : ∀ path w, used (H.unlinkSync path w).2 = used w
  rmdir : ∀ path w, used (H.rmdir path w).2 = used w
  linkSync : ∀ src dst w, used (H.linkSync src dst w).2 = used w
  symlinkSync : ∀ target path w, used (H.symlinkSync target path w).2 = used w
  renameSync : ∀ old new w, used (H.renameSync old new w).2 = used w
  chmodSync : ∀ path mode w, used (H.chmodSync path mode w).2 = used w
  writeSync : ∀ fd bytes offset w, used (H.writeSync fd bytes offset w).2 = used w

/-- The host opens a file for the call. -/
def opens (s : State W) : Call → Bool
  | .open inode _ => (s.tree inode).any fun fspath =>
    (H.openSync fspath "a+" none s.world).1.isSome
      || (H.openSync fspath "r" none (H.openSync fspath "a+" none s.world).2).1.isSome
  | .create parent name mode _ => (join H (s.tree parent) name).any fun fspath =>
    (H.openSync fspath "w+" (some mode) s.world).1.isSome
  | _ => false

/-- The call needs a descriptor, if only for its time. -/
def needsDescriptor : Call → Bool
  | .open .. | .create .. | .write .. | .readdir .. => true
  | _ => false

end NodeFuse.NodeFs
