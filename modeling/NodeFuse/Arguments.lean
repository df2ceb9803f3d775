import NodeFuse.Proxy

/-!
# What a handler should get

The arguments an operation packs and those the handler's side unpacks, and the numbers a request
carries with the place where its method finds each.
-/

namespace NodeFuse

/-! ## Packed and unpacked arguments -/

namespace Request

/-- `r'`, read in memory `m'`, has the arguments of `r` in memory `m`. A name that was copied is the
same string at another address. -/
def Same (m m' : Mem) : Request → Request → Prop
  | .lookup req parent name, .lookup req' parent' name' =>
    req' = req ∧ parent' = parent ∧ m'.cstr name' = m.cstr name
  | r, r' => r' = r

def isSetXAttr : Request → Bool
  | .setXAttr .. => true
  | _ => false

/-- The request with the address `Lookup` passes on for its name. -/
def forwarded (copy : VoidPtr) : Request → Request
  | .lookup req parent _ => .lookup req parent copy
  | r => r

end Request

/-- The operation stores only in its array, and the function bound to its name reads only slots of
the array that were stored to and gets the arguments back. -/
structure Lossless (m : Mem) (copy : VoidPtr) (r : Request) : Prop where
  stores_in_bounds : ∀ i < (FileSystem.serve copy r).args.stored.length,
    i < (FileSystem.serve copy r).args.len
  reads_back : ∃ r', Proxy.call (FileSystem.serve copy r).op (FileSystem.serve copy r).args.checked
      = [r'] ∧ r.Same m (FileSystem.effect copy m r) r'

/-! ## The numbers of a request -/

inductive Place
  | arg (i : ℕ)
  | context (name : String)

def Place.read (argv : List Value) : Place → Option Value
  | .arg i => argv[i]?
  | .context name => argv[0]?.map fun context => context.get name

/-- The numeric arguments. The `size` of an extended attribute is told from that of a read. -/
inductive Kind
  | ino | xattrSize | size | off | mode | rdev | mask | flags | sleep | blocksize | idx
  | uid | gid | pid
  deriving DecidableEq

/-- The numbers that are not narrowed to 32 bits. -/
def Kind.wide : Kind → Bool
  | .ino | .xattrSize => true
  | _ => false

structure Scalar where
  kind : Kind
  place : Place
  value : ℤ

/-- The caller, as every method but `init` and `destroy` is told of it. -/
def callerScalars (ctx : FuseCtx) : List Scalar :=
  [⟨.uid, .context "uid", ctx.uid.toNat⟩, ⟨.gid, .context "gid", ctx.gid.toNat⟩,
    ⟨.pid, .context "pid", ctx.pid.toInt⟩]

/-- The numeric arguments of a request besides the caller, with the places `fuse.js` gives them. The size
of a write is none: its method is passed a buffer of that length (`length_buffer_write`). -/
def Request.ownScalars : Request → List Scalar
  | .init _ | .destroy => []
  | .lookup _ parent _ | .unlink _ parent _ | .rmDir _ parent _ | .symLink _ _ parent _ =>
    [⟨.ino, .arg 1, parent.toNat⟩]
  | .getAttr _ ino _ | .setAttr _ ino _ _ _ | .readLink _ ino | .open _ ino _ | .flush _ ino _
  | .release _ ino _ | .fSync _ ino _ _ | .openDir _ ino _ | .releaseDir _ ino _
  | .fSyncDir _ ino _ _ | .statFs _ ino | .removeXAttr _ ino _ | .getLock _ ino _ _ =>
    [⟨.ino, .arg 1, ino.toNat⟩]
  | .mkNod _ parent _ mode rdev =>
    [⟨.ino, .arg 1, parent.toNat⟩, ⟨.mode, .arg 3, mode.toNat⟩, ⟨.rdev, .arg 4, rdev.toNat⟩]
  | .mkDir _ parent _ mode | .create _ parent _ mode _ =>
    [⟨.ino, .arg 1, parent.toNat⟩, ⟨.mode, .arg 3, mode.toNat⟩]
  | .rename _ parent _ newparent _ =>
    [⟨.ino, .arg 1, parent.toNat⟩, ⟨.ino, .arg 3, newparent.toNat⟩]
  | .link _ ino newparent _ => [⟨.ino, .arg 1, ino.toNat⟩, ⟨.ino, .arg 2, newparent.toNat⟩]
  | .read _ ino size off _ | .readDir _ ino size off _ =>
    [⟨.ino, .arg 1, ino.toNat⟩, ⟨.size, .arg 2, size.toNat⟩, ⟨.off, .arg 3, off.toInt⟩]
  | .write _ ino _ _ off _ => [⟨.ino, .arg 1, ino.toNat⟩, ⟨.off, .arg 3, off.toInt⟩]
  | .setXAttr _ ino _ _ size flags =>
    [⟨.ino, .arg 1, ino.toNat⟩, ⟨.xattrSize, .arg 4, size.toNat⟩, ⟨.flags, .arg 5, flags.toInt⟩]
  | .getXAttr _ ino _ size =>
    [⟨.ino, .arg 1, ino.toNat⟩, ⟨.xattrSize, .arg 3, size.toNat⟩]
  | .listXAttr _ ino size =>
    [⟨.ino, .arg 1, ino.toNat⟩, ⟨.xattrSize, .arg 2, size.toNat⟩]
  | .access _ ino mask => [⟨.ino, .arg 1, ino.toNat⟩, ⟨.mask, .arg 2, mask.toInt⟩]
  | .setLock _ ino _ _ sleep => [⟨.ino, .arg 1, ino.toNat⟩, ⟨.sleep, .arg 4, sleep.toInt⟩]
  | .bMap _ ino blocksize idx =>
    [⟨.ino, .arg 1, ino.toNat⟩, ⟨.blocksize, .arg 2, blocksize.toNat⟩, ⟨.idx, .arg 3, idx.toNat⟩]

def Request.req? : Request → Option VoidPtr
  | .init _ | .destroy => none
  | .lookup req .. | .getAttr req .. | .setAttr req .. | .readLink req .. | .mkNod req ..
  | .mkDir req .. | .unlink req .. | .rmDir req .. | .symLink req .. | .rename req ..
  | .link req .. | .open req .. | .read req .. | .write req .. | .flush req .. | .release req ..
  | .fSync req .. | .openDir req .. | .readDir req .. | .releaseDir req .. | .fSyncDir req ..
  | .statFs req .. | .setXAttr req .. | .getXAttr req .. | .listXAttr req ..
  | .removeXAttr req .. | .access req .. | .create req .. | .getLock req .. | .setLock req ..
  | .bMap req .. => some req

def Request.scalars (S : Session) (r : Request) : List Scalar :=
  (r.req?.toList.flatMap fun req => callerScalars (S.ctx req)) ++ r.ownScalars

/-- The one method a request leads to finds the number it was sent where it looks for it. -/
def Delivered (S : Session) (m : Mem) (copy : VoidPtr) (r : Request) (s : Scalar) : Prop :=
  ∃ i, Proxy.invocations S m (FileSystem.serve copy r) = [i]
    ∧ s.place.read i.argv = some (.int s.value)

end NodeFuse
