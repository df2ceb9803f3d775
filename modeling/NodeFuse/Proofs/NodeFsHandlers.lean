import NodeFuse.NodeFsRuns
import NodeFuse.Proofs.FileInfo
import NodeFuse.Proofs.NodeFs
import NodeFuse.Proofs.ReplyMethods

/-!
# What a request to NodeFS leaves

Each construct of a handler has a rule for its weakest precondition, and by these a handler leaves the
table and gives the inodes that can be read off the request (`does_serve`).
-/

namespace NodeFuse.NodeFs

open HashTable (Op applyAll)
open Throwing ReplyMethods

variable {W : Type} (V : Platform) (D : DirentFormat) (H : Host W)

/-- A request under way, after one more reply. -/
def Served.replied (s : Served W) (msg : FuseReply) : Served W :=
  { s with reply := { s.reply with sent := s.reply.sent ++ [msg] } }

section Rules

variable {V} {rc : ℕ → ℤ} {Q : Unit → Served W → Prop} {E : Served W → Prop} {s : Served W}

theorem wp_method {m : Method} {args : List Value} {msg : FuseReply}
    (h : m.call V rc args s.reply = send V rc msg s.reply) :
    wp (method V rc m args) Q E s ↔ (rc s.reply.sent.length = -1 → E (s.replied msg))
      ∧ (rc s.reply.sent.length ≠ -1 → Q () (s.replied msg)) := by
  unfold wp method
  rw [h, send_eq]
  by_cases hrc : rc s.reply.sent.length = -1
  · simp [hrc, Served.replied]
  · simp [hrc, Served.replied]

/-- Whatever a method does, it does to the reply. -/
theorem wp_method_of_forall {m : Method} {args : List Value} {P : Served W → Prop}
    (h : ∀ r, P { s with reply := r }) : wp (method V rc m args) (fun _ => P) P s := by
  unfold wp method
  rcases m.call V rc args s.reply with _ | ⟨_ | _, r⟩
  · exact h s.reply
  · exact h r
  · exact h r

@[simp] theorem wp_pathAt (inode : ℤ) {Q : Option JsString → Served W → Prop} :
    wp (pathAt inode) Q E s ↔ Q (s.tree inode) s := Iff.rfl

@[simp] theorem wp_setTree (inode : ℤ) (fspath : JsString) :
    wp (setTree inode fspath) Q E s
      ↔ Q () { s with tree := Function.update s.tree inode (some fspath) } := Iff.rfl

@[simp] theorem wp_deleteTree (inode : ℤ) : wp (deleteTree inode) Q E s
    ↔ Q () { s with tree := Function.update s.tree inode none } := Iff.rfl

@[simp] theorem wp_sync {α : Type} (f : W → Option α × W) {Q : α → Served W → Prop} :
    wp (sync f) Q E s ↔ (∀ a, (f s.world).1 = some a → Q a { s with world := (f s.world).2 })
      ∧ ((f s.world).1 = none → E { s with world := (f s.world).2 }) := by
  unfold wp sync
  rcases f s.world with ⟨_ | a, w⟩
  · simp
  · simp

@[simp] theorem wp_look {α : Type} (f : W → Option α) {Q : α → Served W → Prop} :
    wp (look f) Q E s ↔ (∀ a, f s.world = some a → Q a s) ∧ (f s.world = none → E s) := by
  unfold look
  rw [wp_bind, wp_gets, wp_ofOption]

end Rules

/-- The host is as `P` says. -/
def OfWorld (P : W → Prop) (s : Served W) : Prop := P s.world

section Keeps

variable {V H} {rc : ℕ → ℤ} {P : W → Prop}

theorem keeps_pathAt (inode : ℤ) : Keeps (OfWorld P) (pathAt inode) := keeps_gets _

theorem keeps_setTree (inode : ℤ) (fspath : JsString) : Keeps (OfWorld P) (setTree inode fspath) :=
  keeps_modify fun _ h => h

theorem keeps_deleteTree (inode : ℤ) : Keeps (OfWorld P) (deleteTree inode) :=
  keeps_modify fun _ h => h

theorem keeps_sync {α : Type} {f : W → Option α × W} (h : ∀ w, P w → P (f w).2) :
    Keeps (OfWorld P) (sync f) := fun _ hs => (wp_sync f).2 ⟨fun _ _ => h _ hs, fun _ => h _ hs⟩

theorem keeps_look {α : Type} (f : W → Option α) : Keeps (OfWorld P) (look f) := fun _ hs =>
  (wp_look f).2 ⟨fun _ _ => hs, fun _ => hs⟩

theorem keeps_method (m : Method) (args : List Value) : Keeps (OfWorld P) (method V rc m args) :=
  fun _ hs => wp_method_of_forall fun _ => hs

/-- The end of the methods that make something on the host. -/
theorem keeps_made (exception : Value) (f : W → Option Stats) (inode : ℤ) (path : JsString) :
    Keeps (OfWorld P) (if exception.truthy then err V rc PosixError.EIO
      else do
        let stats ← look f
        setTree inode path
        method V rc .entry [entryObject inode (stamp inode stats)]) :=
  keeps_ite (keeps_method _ _) (keeps_bind (keeps_look _) fun _ =>
    keeps_bind (keeps_setTree _ _) fun _ => keeps_method _ _)

/-- The end of the methods that remove something. -/
theorem keeps_removed (exception : Value) (inode : ℤ) :
    Keeps (OfWorld P) (if exception.truthy then err V rc PosixError.EIO
      else do
        deleteTree inode
        err V rc 0) :=
  keeps_ite (keeps_method _ _) (keeps_bind (keeps_deleteTree _) fun _ => keeps_method _ _)

theorem keeps_lookup (parent : ℤ) (name : JsString) :
    Keeps (OfWorld P) (lookup V H rc parent name) := by
  unfold lookup
  refine keeps_bind (keeps_pathAt _) fun dir => keeps_bind (keeps_ofOption _) fun fspath =>
    keeps_bind (keeps_gets _) fun w => ?_
  rcases (H.fs w).lstatSync fspath with _ | stats
  · exact keeps_method _ _
  · exact keeps_bind (keeps_method _ _) fun _ => keeps_setTree _ _

end Keeps

section Replies

variable (rc : ℕ → ℤ)

theorem err_call {code : ℤ} (h : -2 ^ 31 ≤ code ∧ code < 2 ^ 31) (r : Reply) :
    Method.err.call V rc [.int code] r = send V rc (.err (Int32.ofInt code)) r := by
  have his : (Value.int code).isInt32 := by
    simp only [Value.int, Value.isInt32, Rat.den_intCast, Rat.num_intCast]
    exact decide_eq_true ⟨trivial, h⟩
  have hvalue : (Value.int code).int32Value = Int32.ofInt code := by
    simp only [Value.int, Value.int32Value, Rat.num_intCast]
  unfold Method.call error
  rw [checkFirst_of_is rfl his]
  exact congrArg (fun c => send V rc (.err c) r) hvalue

/-- The structure behind `entry`. -/
def entrySent (inode : ℤ) (attr : Value) : FuseEntryParam where
  ino := (V.integerValue (.int inode)).toUInt64
  generation := (V.integerValue (.int generation)).toUInt64
  attr := V.objectToStat attr V.stack
  attrTimeout := V.numberValue (.int attrTimeout)
  entryTimeout := V.numberValue (.int entryTimeout)

theorem objectToFuseEntryParam_entryObject (inode : ℤ) {attr : Value} (h : attr.isObject) :
    V.objectToFuseEntryParam (entryObject inode attr) (entryParam V)
      = some (entrySent V inode attr) := by
  have hattr : attr.toObject = some attr := by cases attr <;> first | rfl | cases h
  show attr.toObject.map _ = _
  rw [hattr]
  rfl

theorem entry_call (inode : ℤ) {attr : Value} (h : attr.isObject) (r : Reply) :
    Method.entry.call V rc [entryObject inode attr] r
      = send V rc (.entry (entrySent V inode attr)) r := by
  unfold Method.call ReplyMethods.entry
  rw [checkFirst_of_is rfl rfl]
  show (V.objectToFuseEntryParam (entryObject inode attr) (entryParam V)).bind _ = _
  rw [objectToFuseEntryParam_entryObject V inode h]
  rfl

theorem create_call (inode : ℤ) {attr : Value} (h : attr.isObject) (fi : FuseFileInfo)
    (r : Reply) : Method.create.call V rc [entryObject inode attr, .fileInfo fi] r
      = send V rc (.create (entrySent V inode attr) fi) r := by
  have hobject : ¬ ¬ (Reply.arg [entryObject inode attr, .fileInfo fi] 0).isObject = true :=
    not_not.2 rfl
  unfold Method.call ReplyMethods.create
  rw [if_neg (by simp), if_neg hobject]
  show (V.objectToFuseEntryParam (entryObject inode attr) (entryParam V)).bind _ = _
  rw [objectToFuseEntryParam_entryObject V inode h]
  rfl

theorem setFh_eq (fd : Num) (fi : FuseFileInfo) : (setFh V fd fi : Handler W FuseFileInfo)
    = pure { fi with fh := (V.integerValue (.number fd)).toUInt64 } := rfl

theorem hash_nonneg (path : JsString) : 0 ≤ hash path := Int.natCast_nonneg _

theorem hash_le (path : JsString) : hash path ≤ 2 ^ 31 := by
  unfold hash
  generalize List.foldl _ _ _ = h
  have h1 := h.minValue_le_toInt
  have h2 := h.toInt_lt
  rw [show Int32.minValue.toInt = -2 ^ 31 by decide] at h1
  omega

theorem ino_entrySent (path : JsString) (attr : Value) :
    ((entrySent V (hash path) attr).ino.toNat : ℤ) = hash path := by
  have hle := hash_le path
  exact FileInfo.toNat_of_integerValue V.toRuntime (hash_nonneg path) (by omega)

end Replies

/-! ## Requests -/

section Requests

variable (s : State W) (rc : ℕ → ℤ)

/-- What the request is said to leave. -/
structure Does (e : Request) (s' : Served W) : Prop where
  tree : s'.tree = applyAll hash s.tree (writes H s e)
  given : (received e.rc s'.reply.sent).toList.flatMap (inodesIn D H s e.call)
    = (givenPaths V H s e).map fun path => ⟨path, hash path⟩

variable {V D H s rc}

/-- A call that only stores a path, and gives its inode. -/
theorem does_of_stored {call : Call} (path : Option JsString) {s' : Served W}
    (hwrites : writes H s ⟨call, rc⟩ = (stored H s rc call).toList.map .store)
    (hgiven : givenPaths V H s ⟨call, rc⟩
      = if rc 0 = 0 then (stored H s rc call).toList else [])
    (hpath : stored H s rc call = path)
    (htree : s'.tree = applyAll hash s.tree (path.toList.map .store))
    (hsent : rc 0 = 0 → s'.reply.sent.head?.toList.flatMap (inodesIn D H s call)
      = path.toList.map fun path => ⟨path, hash path⟩) : Does V D H s ⟨call, rc⟩ s' := by
  refine ⟨by rw [hwrites, hpath, htree], ?_⟩
  rw [hgiven, hpath]
  unfold received
  simp only []
  split_ifs with hrc
  · exact hsent hrc
  · rfl

theorem inodesIn_entry {call : Call} {path : JsString} (h : target H s call = some path)
    (attr : Value) :
    inodesIn D H s call (.entry (entrySent V (hash path) attr)) = [⟨path, hash path⟩] := by
  unfold inodesIn
  simp only [h, Option.toList_some, List.map_cons, List.map_nil, ino_entrySent]

theorem inodesIn_create {call : Call} {path : JsString} (h : target H s call = some path)
    (attr : Value) (fi : FuseFileInfo) :
    inodesIn D H s call (.create (entrySent V (hash path) attr) fi) = [⟨path, hash path⟩] :=
  inodesIn_entry (D := D) h attr

theorem does_lookup (parent : ℤ) (name : JsString) :
    wp (lookup V H rc parent name) (fun _ => Does V D H s ⟨.lookup parent name, rc⟩)
      (Does V D H s ⟨.lookup parent name, rc⟩) ⟨s.tree, s.world, .new⟩ := by
  have hdoes : ∀ path {s'}, stored H s rc (.lookup parent name) = path → _ → _ →
      Does V D H s ⟨.lookup parent name, rc⟩ s' :=
    fun path _ hpath => does_of_stored path (List.append_nil _) rfl hpath
  unfold lookup
  simp only [wp_bind, wp_pathAt, wp_ofOption, wp_gets]
  refine ⟨fun fspath hpath => ?_, fun hpath => ?_⟩
  · rcases hstat : (H.fs s.world).lstatSync fspath with _ | stats
    · have hnone : Does V D H s ⟨.lookup parent name, rc⟩
          ((⟨s.tree, s.world, .new⟩ : Served W).replied (.err (Int32.ofInt PosixError.ENOENT))) :=
        hdoes none (by simp [stored, hpath, hstat]) rfl fun _ => rfl
      exact (wp_method (err_call V rc (by decide) _)).2 ⟨fun _ => hnone, fun _ => hnone⟩
    · simp only [wp_bind]
      refine (wp_method (entry_call V rc (hash fspath) rfl _)).2 ⟨fun hrc => ?_, fun hrc => ?_⟩
      · have hrc0 : rc 0 = -1 := hrc
        refine hdoes none (by simp [stored, hpath, hrc0]) rfl fun hzero => ?_
        omega
      · have hrc0 : rc 0 ≠ -1 := hrc
        rw [wp_setTree]
        refine hdoes (some fspath) (by simp [stored, hpath, hstat, hrc0]) rfl fun _ => ?_
        have htarget : target H s (.lookup parent name) = some fspath := hpath
        exact (List.append_nil _).trans (inodesIn_entry htarget _)
  · exact hdoes none (by simp [stored, hpath]) rfl fun _ => rfl

/-- The end of the methods that make something on the host. -/
theorem does_made {call : Call} {path : JsString} {w : W} {result : Option Value}
    {stat : W → Option Stats}
    (hwrites : writes H s ⟨call, rc⟩ = (stored H s rc call).toList.map .store)
    (hgiven : givenPaths V H s ⟨call, rc⟩
      = if rc 0 = 0 then (stored H s rc call).toList else [])
    (htarget : target H s call = some path)
    (hpath : stored H s rc call = made path result (stat w)) :
    (∀ exception, result = some exception →
      wp (if exception.truthy then err V rc PosixError.EIO
        else do
          let stats ← look stat
          setTree (hash path) path
          method V rc .entry [entryObject (hash path) (stamp (hash path) stats)])
        (fun _ => Does V D H s ⟨call, rc⟩) (Does V D H s ⟨call, rc⟩) ⟨s.tree, w, .new⟩)
      ∧ (result = none → Does V D H s ⟨call, rc⟩ ⟨s.tree, w, .new⟩) := by
  have hdoes : ∀ path {s'}, stored H s rc call = path → _ → _ → Does V D H s ⟨call, rc⟩ s' :=
    fun path _ hpath => does_of_stored path hwrites hgiven hpath
  refine ⟨fun exception hresult => ?_, fun hresult => ?_⟩
  · rw [wp_ite]
    refine ⟨fun htruthy => ?_, fun htruthy => ?_⟩
    · have hnone : Does V D H s ⟨call, rc⟩
          ((⟨s.tree, w, .new⟩ : Served W).replied (.err (Int32.ofInt PosixError.EIO))) :=
        hdoes none (by simp [hpath, made, hresult, htruthy]) rfl fun _ => rfl
      exact (wp_method (err_call V rc (by decide) _)).2 ⟨fun _ => hnone, fun _ => hnone⟩
    · simp only [wp_bind, wp_look, wp_setTree]
      refine ⟨fun stats hstat => ?_, fun hstat => ?_⟩
      · have hsome : Does V D H s ⟨call, rc⟩ (Served.replied
            ⟨Function.update s.tree (hash path) (some path), w, .new⟩
              (.entry (entrySent V (hash path) (stamp (hash path) stats)))) := by
          refine hdoes (some path) (by simp [hpath, made, hresult, htruthy, hstat]) rfl
            fun _ => ?_
          exact (List.append_nil _).trans (inodesIn_entry htarget _)
        exact (wp_method (entry_call V rc (hash path) rfl _)).2 ⟨fun _ => hsome, fun _ => hsome⟩
      · exact hdoes none (by simp [hpath, made, hresult, hstat]) rfl fun _ => rfl
  · exact hdoes none (by simp [hpath, made, hresult]) rfl fun _ => rfl

theorem does_mkdir (parent : ℤ) (name : JsString) (mode : ℤ) :
    wp (mkdir V H rc parent name mode) (fun _ => Does V D H s ⟨.mkdir parent name mode, rc⟩)
      (Does V D H s ⟨.mkdir parent name mode, rc⟩) ⟨s.tree, s.world, .new⟩ := by
  unfold mkdir
  simp only [wp_bind, wp_pathAt, wp_ofOption, wp_sync]
  refine ⟨fun fspath hpath => ?_, fun hpath => ?_⟩
  · exact does_made (List.append_nil _) rfl hpath (by simp only [stored, hpath]; rfl)
  · exact does_of_stored none (List.append_nil _) rfl (by simp [stored, hpath]) rfl
      fun _ => rfl

theorem does_link (inode newParent : ℤ) (newName : JsString) :
    wp (link V H rc inode newParent newName)
      (fun _ => Does V D H s ⟨.link inode newParent newName, rc⟩)
      (Does V D H s ⟨.link inode newParent newName, rc⟩) ⟨s.tree, s.world, .new⟩ := by
  have hnone : ∀ {s'}, stored H s rc (.link inode newParent newName) = none → s'.tree = s.tree →
      s'.reply.sent = [] → Does V D H s ⟨.link inode newParent newName, rc⟩ s' :=
    fun hpath htree hsent => does_of_stored none (List.append_nil _) rfl hpath htree
      fun _ => by rw [hsent]; rfl
  unfold link
  simp only [wp_bind, wp_pathAt, wp_ofOption, wp_sync]
  refine ⟨fun dstPath hpath => ⟨fun srcPath hsrc => ?_, fun hsrc => ?_⟩, fun hpath => ?_⟩
  · exact does_made (List.append_nil _) rfl hpath (by simp only [stored, hpath, hsrc]; rfl)
  · exact hnone (by simp [stored, hpath, hsrc]) rfl rfl
  · exact hnone (by simp [stored, hpath]) rfl rfl

theorem does_symlink (parent : ℤ) (target name : JsString) :
    wp (symlink V H rc parent target name)
      (fun _ => Does V D H s ⟨.symlink parent target name, rc⟩)
      (Does V D H s ⟨.symlink parent target name, rc⟩) ⟨s.tree, s.world, .new⟩ := by
  unfold symlink
  simp only [wp_bind, wp_pathAt, wp_ofOption, wp_sync]
  refine ⟨fun dstPath hpath => ?_, fun hpath => ?_⟩
  · exact does_made (List.append_nil _) rfl hpath (by simp only [stored, hpath]; rfl)
  · exact does_of_stored none (List.append_nil _) rfl (by simp [stored, hpath]) rfl
      fun _ => rfl

theorem does_create (parent : ℤ) (name : JsString) (mode : ℤ) (fileInfo : FuseFileInfo) :
    wp (create V H rc parent name mode fileInfo)
      (fun _ => Does V D H s ⟨.create parent name mode fileInfo, rc⟩)
      (Does V D H s ⟨.create parent name mode fileInfo, rc⟩) ⟨s.tree, s.world, .new⟩ := by
  have hdoes : ∀ path {s'}, stored H s rc (.create parent name mode fileInfo) = path → _ → _ →
      Does V D H s ⟨.create parent name mode fileInfo, rc⟩ s' :=
    fun path _ hpath => does_of_stored path (List.append_nil _) rfl hpath
  unfold create
  simp only [wp_bind, wp_pathAt, wp_ofOption, wp_sync]
  refine ⟨fun fspath hpath => ⟨fun fd hfd => ?_, fun hfd => ?_⟩, fun hpath => ?_⟩
  · rw [wp_ite]
    refine ⟨fun hnan => ?_, fun hnan => ?_⟩
    · have hnone : Does V D H s ⟨.create parent name mode fileInfo, rc⟩
          (Served.replied ⟨s.tree, (H.openSync fspath "w+" (some mode) s.world).2, .new⟩
            (.err (Int32.ofInt PosixError.EIO))) :=
        hdoes none (by simp [stored, hpath, hfd, hnan]) rfl fun _ => rfl
      exact (wp_method (err_call V rc (by decide) _)).2 ⟨fun _ => hnone, fun _ => hnone⟩
    · simp only [wp_bind, wp_look, wp_setTree, setFh_eq, wp_pure]
      refine ⟨fun stats hstat => ?_, fun hstat => ?_⟩
      · have hsome : ∀ fi, Does V D H s ⟨.create parent name mode fileInfo, rc⟩ (Served.replied
            ⟨Function.update s.tree (hash fspath) (some fspath),
              (H.openSync fspath "w+" (some mode) s.world).2, .new⟩
              (.create (entrySent V (hash fspath) (stamp (hash fspath) stats)) fi)) := by
          intro fi
          refine hdoes (some fspath) (by simp [stored, hpath, hfd, hnan, hstat]) rfl
            fun _ => ?_
          have htarget : target H s (.create parent name mode fileInfo) = some fspath := hpath
          exact (List.append_nil _).trans (inodesIn_create htarget _ _)
        exact (wp_method (create_call V rc (hash fspath) rfl _ _)).2
          ⟨fun _ => hsome _, fun _ => hsome _⟩
      · exact hdoes none (by simp [stored, hpath, hfd, hstat]) rfl fun _ => rfl
  · exact hdoes none (by simp [stored, hpath, hfd]) rfl fun _ => rfl
  · exact hdoes none (by simp [stored, hpath]) rfl fun _ => rfl

/-- A reply that is no entry of a directory gives the inode of a target, if of anything. -/
theorem inodesIn_of_target_eq_none {call : Call} (h : target H s call = none)
    (hreaddir : ∀ inode size offset, call ≠ .readdir inode size offset) (msg : FuseReply) :
    inodesIn D H s call msg = [] := by
  cases msg with
  | entry | create => simp only [inodesIn, h, Option.toList_none, List.map_nil]
  | buf bytes =>
    cases call with
    | readdir inode size offset => exact absurd rfl (hreaddir inode size offset)
    | _ => rfl
  | _ => rfl

theorem does_of_target_eq_none {call : Call} {s' : Served W} (h : target H s call = none)
    (hreaddir : ∀ inode size offset, call ≠ .readdir inode size offset)
    (hgiven : givenPaths V H s ⟨call, rc⟩ = [])
    (htree : s'.tree = applyAll hash s.tree (writes H s ⟨call, rc⟩)) :
    Does V D H s ⟨call, rc⟩ s' := by
  refine ⟨htree, ?_⟩
  rw [hgiven, List.map_nil, List.flatMap_eq_nil_iff]
  exact fun msg _ => inodesIn_of_target_eq_none h hreaddir msg

theorem does_unlink (parent : ℤ) (name : JsString) :
    wp (unlink V H rc parent name) (fun _ => Does V D H s ⟨.unlink parent name, rc⟩)
      (Does V D H s ⟨.unlink parent name, rc⟩) ⟨s.tree, s.world, .new⟩ := by
  have hdoes : ∀ (path : Option JsString) {s' : Served W},
      deleted H s (.unlink parent name) = path →
        s'.tree = applyAll hash s.tree (path.toList.map .erase) →
          Does V D H s ⟨.unlink parent name, rc⟩ s' := by
    intro path s' hpath htree
    refine does_of_target_eq_none rfl (by simp) (by simp [givenPaths, stored]) ?_
    rw [htree, ← hpath]
    rfl
  unfold unlink
  simp only [wp_bind, wp_pathAt, wp_ofOption, wp_sync, wp_ite, wp_deleteTree]
  refine ⟨fun fspath hpath => ⟨fun exception hresult => ⟨fun htruthy => ?_, fun htruthy => ?_⟩,
    fun hresult => ?_⟩, fun hpath => ?_⟩
  · exact wp_method_of_forall fun r => hdoes none
      (by simp [deleted, hpath, hresult, htruthy]) rfl
  · exact wp_method_of_forall fun r => hdoes (some fspath)
      (by simp [deleted, hpath, hresult, htruthy]) rfl
  · exact hdoes none (by simp [deleted, hpath, hresult]) rfl
  · exact hdoes none (by simp [deleted, hpath]) rfl

theorem does_rmdir (parent : ℤ) (name : JsString) :
    wp (rmdir V H rc parent name) (fun _ => Does V D H s ⟨.rmdir parent name, rc⟩)
      (Does V D H s ⟨.rmdir parent name, rc⟩) ⟨s.tree, s.world, .new⟩ := by
  have hdoes : ∀ (path : Option JsString) {s' : Served W},
      join H (s.tree parent) name = path →
        s'.tree = applyAll hash s.tree (path.toList.map .erase) →
          Does V D H s ⟨.rmdir parent name, rc⟩ s' := by
    intro path s' hpath htree
    refine does_of_target_eq_none rfl (by simp) (by simp [givenPaths, stored]) ?_
    rw [htree, ← hpath]
    rfl
  unfold rmdir
  simp only [wp_bind, wp_pathAt, wp_ofOption, wp_sync, wp_ite, wp_deleteTree]
  refine ⟨fun fspath hpath => ⟨fun exception hresult => ⟨fun htruthy => ?_, fun htruthy => ?_⟩,
    fun hresult => ?_⟩, fun hpath => ?_⟩
  · -- what `fs.rmdir` returns is false
    rw [← Option.some.inj hresult] at htruthy
    cases htruthy
  · exact wp_method_of_forall fun r => hdoes _ hpath rfl
  · cases hresult
  · exact hdoes _ hpath rfl

theorem does_rename (parent : ℤ) (name : JsString) (newParent : ℤ) (newName : JsString) :
    wp (rename V H rc parent name newParent newName)
      (fun _ => Does V D H s ⟨.rename parent name newParent newName, rc⟩)
      (Does V D H s ⟨.rename parent name newParent newName, rc⟩) ⟨s.tree, s.world, .new⟩ := by
  have hdoes : ∀ (path : Option JsString) {s' : Served W},
      stored H s rc (.rename parent name newParent newName) = path →
        s'.tree = applyAll hash s.tree (path.toList.map .store) →
          Does V D H s ⟨.rename parent name newParent newName, rc⟩ s' := by
    intro path s' hpath htree
    refine does_of_target_eq_none rfl (by simp) (by simp [givenPaths]) ?_
    rw [htree, ← hpath]
    exact congrArg (applyAll hash s.tree) (List.append_nil _).symm
  unfold rename
  simp only [wp_bind, wp_pathAt, wp_ofOption, wp_sync]
  refine ⟨fun oldPath hold => ⟨fun newPath hnew => ⟨fun value hresult => ?_, fun hresult => ?_⟩,
    fun hnew => ?_⟩, fun hold => ?_⟩
  · refine (wp_method (err_call V rc (by decide) _)).2 ⟨fun hrc => ?_, fun hrc => ?_⟩
    · have hrc0 : rc 0 = -1 := hrc
      exact hdoes none (by simp [stored, hold, hnew, hrc0]) rfl
    · have hrc0 : rc 0 ≠ -1 := hrc
      rw [wp_setTree]
      exact hdoes (some newPath) (by simp [stored, hold, hnew, hresult, hrc0]) rfl
  · exact hdoes none (by simp [stored, hold, hnew, hresult]) rfl
  · exact hdoes none (by simp [stored, hold, hnew]) rfl
  · exact hdoes none (by simp [stored, hold]) rfl

def TreeKept (s : State W) (s' : Served W) : Prop := s'.tree = s.tree

theorem kept_getattr (inode : ℤ) : wp (getattr V H rc inode) (fun _ => TreeKept s) (TreeKept s)
    ⟨s.tree, s.world, .new⟩ := by
  unfold getattr
  simp only [wp_bind, wp_pathAt, wp_gets]
  rcases (s.tree inode).bind (H.fs s.world).lstatSync with _ | stats
  · exact wp_method_of_forall fun r => rfl
  · exact wp_method_of_forall fun r => rfl

theorem kept_setattr (inode : ℤ) (attrs : Value) : wp (setattr V H rc inode attrs)
    (fun _ => TreeKept s) (TreeKept s) ⟨s.tree, s.world, .new⟩ := by
  unfold setattr
  simp only [wp_bind, wp_pathAt, wp_ofOption, wp_sync, wp_ite, wp_look]
  refine ⟨fun fspath _ => ⟨fun exception _ => ⟨fun _ => ?_, fun _ => ⟨fun stats _ => ?_,
    fun _ => rfl⟩⟩, fun _ => rfl⟩, fun _ => rfl⟩
  · exact wp_method_of_forall fun r => rfl
  · exact wp_method_of_forall fun r => rfl

theorem kept_open (inode : ℤ) (fileInfo : FuseFileInfo) : wp (NodeFs.open V H rc inode fileInfo)
    (fun _ => TreeKept s) (TreeKept s) ⟨s.tree, s.world, .new⟩ := by
  unfold NodeFs.open
  simp only [wp_bind, wp_pathAt, wp_ofOption, wp_orElse, wp_sync, wp_ite, setFh_eq, wp_pure]
  have hopened : ∀ (fd : Num) (w : W),
      (fd = .nan → wp (err V rc PosixError.EIO) (fun _ => TreeKept s) (TreeKept s)
        ⟨s.tree, w, .new⟩)
      ∧ (¬ fd = .nan → wp (method V rc .open [.fileInfo
          { fileInfo with fh := (V.integerValue (.number fd)).toUInt64 }])
        (fun _ => TreeKept s) (TreeKept s) ⟨s.tree, w, .new⟩) :=
    fun _ _ => ⟨fun _ => wp_method_of_forall fun r => rfl,
      fun _ => wp_method_of_forall fun r => rfl⟩
  refine ⟨fun fspath _ => ⟨fun fd _ => hopened fd _, fun _ => ⟨fun fd _ => hopened fd _,
    fun _ => rfl⟩⟩, fun _ => rfl⟩

theorem kept_read (size offset : ℤ) (fileInfo : FuseFileInfo) :
    wp (read V H rc size offset fileInfo) (fun _ => TreeKept s) (TreeKept s)
      ⟨s.tree, s.world, .new⟩ := by
  unfold read
  simp only [wp_bind, wp_ofOption, wp_look]
  refine ⟨fun buf _ => ⟨fun bytes _ => ?_, fun _ => rfl⟩, fun _ => rfl⟩
  exact wp_method_of_forall fun r => rfl

theorem kept_write (inode : ℤ) (buffer : List UInt8) (offset : ℤ) (fileInfo : FuseFileInfo) :
    wp (write V H rc inode buffer offset fileInfo) (fun _ => TreeKept s) (TreeKept s)
      ⟨s.tree, s.world, .new⟩ := by
  unfold write
  simp only [wp_bind, wp_pathAt, wp_ofOption, wp_sync, wp_look]
  refine ⟨fun fspath _ => ⟨fun content _ => ⟨fun bytes _ => ?_, fun _ => rfl⟩, fun _ => rfl⟩,
    fun _ => rfl⟩
  exact wp_method_of_forall fun r => rfl

theorem kept_readlink (inode : ℤ) : wp (readlink V H rc inode) (fun _ => TreeKept s) (TreeKept s)
    ⟨s.tree, s.world, .new⟩ := by
  unfold readlink
  simp only [wp_bind, wp_pathAt, wp_ofOption, wp_look]
  refine ⟨fun dstPath _ => ⟨fun srcPath _ => ?_, fun _ => rfl⟩, fun _ => rfl⟩
  exact wp_method_of_forall fun r => rfl

end Requests

/-! ## Directories -/

theorem utf8_injective : Function.Injective JsString.utf8 := by
  intro a b h
  have hencode : a.utf8Encode = b.utf8Encode := by
    unfold List.utf8Encode
    exact congrArg (fun l : List UInt8 => l.toByteArray) h
  refine String.ofList_injective (String.toByteArray_inj.1 ?_)
  rw [String.toByteArray_ofList, String.toByteArray_ofList, hencode]

section Loop

variable (V : Runtime) (D : DirentFormat) (fs : Fs) (rc : ℕ → ℤ)

theorem tree_readdirLoop (fspath : JsString) (size offset : ℤ) :
    ∀ (names : List JsString) (i : ℕ) (tree : Tree) (r : Reply),
      (readdirLoop V D fs rc fspath size offset i names (tree, r)).1 = applyAll hash tree
        (((names.map (Path.join fspath)).takeWhile fun path => (fs.lstatSync path).isSome).map
          .store)
  | [], _, _, _ => rfl
  | name :: names, i, tree, r => by
    unfold readdirLoop
    rw [List.map_cons]
    rcases hstat : fs.lstatSync (Path.join fspath name) with _ | stat
    · rw [List.takeWhile_cons_of_neg (by simp [hstat])]
      rfl
    · rw [List.takeWhile_cons_of_pos (by simp [hstat]), List.map_cons]
      exact tree_readdirLoop fspath size offset names (i + 1) _ _

theorem inodes_calls (fspath : JsString) (offset : ℤ) (all : List JsString) :
    ∀ (names : List JsString) (i : ℕ), (∀ name ∈ names, name ∈ all ∧ EntryName name.utf8) →
      (∀ name ∈ names, hasStat fs fspath name) →
        ((calls fs fspath offset i names).map (entryOf V)).filterMap (fun e =>
            (all.find? fun name => name.utf8 = e.name).map fun name =>
              (⟨Path.join fspath name, e.ino.toNat⟩ : Given))
          = (names.map (Path.join fspath)).map fun path => ⟨path, hash path⟩
  | [], _, _, _ => rfl
  | name :: names, i, hnames, hall => by
    obtain ⟨stat, hstat⟩ := Option.isSome_iff_exists.1 (hall name List.mem_cons_self)
    obtain ⟨hmem, hvalid⟩ := hnames name List.mem_cons_self
    have ih := inodes_calls fspath offset all names (i + 1)
      (fun n hn => hnames n (List.mem_cons_of_mem _ hn))
      fun n hn => hall n (List.mem_cons_of_mem _ hn)
    have hfind : all.find? (fun n => decide (n.utf8 = cstring name.utf8)) = some name := by
      rw [cstring_eq_self hvalid]
      rcases hfound : all.find? (fun n => decide (n.utf8 = name.utf8)) with _ | found
      · exact absurd (decide_eq_true rfl) (List.find?_eq_none.1 hfound name hmem)
      · have hutf8 := List.find?_some hfound
        rw [hfound, utf8_injective (of_decide_eq_true hutf8)]
    unfold calls
    simp only [hstat, List.map_cons]
    have hname : (entryOf V (callAt fspath offset i name stat)).name = cstring name.utf8 := rfl
    have hino : ((entryOf V (callAt fspath offset i name stat)).ino.toNat : ℤ)
        = hash (Path.join fspath name) := by
      have hle := hash_le (Path.join fspath name)
      exact FileInfo.toNat_of_integerValue V (hash_nonneg _) (by omega)
    rw [List.filterMap_cons, hname, hfind, Option.map_some, hino, ih]

end Loop

section Readdir

variable (rc : ℕ → ℤ) (s : State W)

theorem of_directory {H : Host W} {s : State W} {inode : ℤ} {fspath : JsString}
    {names : List JsString} (h : directory H inode s = some (fspath, names)) :
    (H.fs s.world).readdirSync fspath = some names := by
  unfold directory at h
  simp only [Option.bind_eq_some_iff, Option.map_eq_some_iff, Prod.mk.injEq] at h
  obtain ⟨_, -, _, hnames, rfl, rfl⟩ := h
  exact hnames

theorem inodesIn_empty (call : Call) : inodesIn D H s call (.buf []) = [] := by
  unfold inodesIn
  cases call with
  | readdir inode size offset =>
    simp only [D.decode_nil, List.filterMap_nil]
    rcases directory H inode s with _ | ⟨fspath, names⟩
    · rfl
    · rfl
  | _ => rfl

theorem inodesIn_calls {H : Host W} {s : State W} {inode size offset : ℤ} {fspath : JsString}
    {names : List JsString} (hdir : directory H inode s = some (fspath, names))
    (hall : ∀ name ∈ entries names, hasStat (H.fs s.world) fspath name) :
    inodesIn D H s (.readdir inode size offset) (.buf
        ((calls (H.fs s.world) fspath offset 0 (entries names)).flatMap (·.encoding V.toRuntime D)))
      = (entryPaths fspath names).map fun path => ⟨path, hash path⟩ := by
  have hvalid := entries_valid (of_directory hdir)
  have hdecode := (decode_calls V.toRuntime D (H.fs s.world) offset hvalid hall).1
  have hinodes := inodes_calls V.toRuntime (H.fs s.world) fspath offset (entries names)
    (entries names) 0 (fun name hname => ⟨hname, hvalid name hname⟩) hall
  unfold inodesIn entryPaths
  simp only [hdir]
  rw [hdecode]
  exact hinodes

theorem flatMap_received_eq {sent : List FuseReply} {call : Call} {l : List Given}
    (h : rc 0 = 0 → sent.head?.toList.flatMap (inodesIn D H s call) = l) :
    (received rc sent).toList.flatMap (inodesIn D H s call) = if rc 0 = 0 then l else [] := by
  unfold received
  split_ifs with hrc
  · exact h hrc
  · rfl

/-- The entries are received together or not at all. -/
theorem received_readdirLoop {inode size offset : ℤ} {fspath : JsString}
    {names : List JsString} (hdir : directory H inode s = some (fspath, names)) :
    ((readdirLoop V.toRuntime D (H.fs s.world) rc fspath size offset 0 (entries names)
        (s.tree, .new)).2.sent.head?).toList.flatMap (inodesIn D H s (.readdir inode size offset))
      = if (∃ path ∈ entryPaths fspath names, (H.fs s.world).lstatSync path = none)
          ∨ Reply.requestedSize V.toRuntime (.fin size) < entriesSize (entries names) then []
        else (entryPaths fspath names).map fun path => ⟨path, hash path⟩ := by
  have hmissing : (∃ path ∈ entryPaths fspath names, (H.fs s.world).lstatSync path = none)
      ↔ ¬ ∀ name ∈ entries names, hasStat (H.fs s.world) fspath name := by
    unfold entryPaths hasStat
    simp
  rw [head_readdirLoop V.toRuntime D (H.fs s.world) rc fspath size offset (entries names) s.tree
    (entries_valid (of_directory hdir))]
  by_cases hall : ∀ name ∈ entries names, hasStat (H.fs s.world) fspath name
  · have htake : (entries names).takeWhile (hasStat (H.fs s.world) fspath) = entries names :=
      List.takeWhile_eq_self_iff.2 hall
    rw [htake, if_pos hall]
    by_cases hover : Reply.requestedSize V.toRuntime (.fin size) < entriesSize (entries names)
    · rw [if_pos hover, if_pos (.inr hover)]
      exact (List.append_nil _).trans (inodesIn_empty D H s _)
    · have hneither : ¬ ((∃ path ∈ entryPaths fspath names, (H.fs s.world).lstatSync path = none)
          ∨ Reply.requestedSize V.toRuntime (.fin size) < entriesSize (entries names)) := by
        rintro (h | h)
        · exact hmissing.1 h hall
        · exact hover h
      rw [if_neg hover, if_neg hneither]
      exact (List.append_nil _).trans (inodesIn_calls V D hdir hall)
  · have hsome : (∃ path ∈ entryPaths fspath names, (H.fs s.world).lstatSync path = none)
        ∨ Reply.requestedSize V.toRuntime (.fin size) < entriesSize (entries names) :=
      .inl (hmissing.2 hall)
    rw [if_neg hall, if_pos hsome]
    split_ifs
    · exact (List.append_nil _).trans (inodesIn_empty D H s _)
    · rfl

theorem does_readdir (inode size offset : ℤ) :
    Does V D H s ⟨.readdir inode size offset, rc⟩
      (serve V D H rc (.readdir inode size offset) s.tree s.world) := by
  have hserve : serve V D H rc (.readdir inode size offset) s.tree s.world
      = ⟨(readdir V.toRuntime D (H.fs s.world) rc inode size offset s.tree).1, s.world,
        (readdir V.toRuntime D (H.fs s.world) rc inode size offset s.tree).2⟩ := rfl
  rw [hserve]
  rcases hdir : directory H inode s with _ | ⟨fspath, names⟩
  · have hreaddir : readdir V.toRuntime D (H.fs s.world) rc inode size offset s.tree
        = (s.tree, .new) := by
      unfold directory at hdir
      unfold readdir
      rw [hdir]
    rw [hreaddir]
    refine ⟨?_, ?_⟩
    · simp only [writes, hdir]
      rfl
    · rw [flatMap_received_eq D H rc s (l := []) fun _ => rfl]
      simp [givenPaths, hdir]
  · have hreaddir : readdir V.toRuntime D (H.fs s.world) rc inode size offset s.tree
        = if (entries names).length ≤ offset + 1 then
            (s.tree, (Reply.buffer V.toRuntime rc [.buffer []] .new).2)
          else readdirLoop V.toRuntime D (H.fs s.world) rc fspath size offset 0 (entries names)
            (s.tree, .new) := by
      unfold directory at hdir
      unfold readdir
      rw [hdir]
    rw [hreaddir]
    by_cases hend : ((entries names).length : ℤ) ≤ offset + 1
    · rw [if_pos hend]
      refine ⟨?_, ?_⟩
      · simp only [writes, hdir, if_pos hend]
        rfl
      · rw [flatMap_received_eq D H rc s (l := []) fun _ => ?_]
        · simp [givenPaths, hdir, hend]
        · rw [Reply.buffer_sent]
          exact (List.append_nil _).trans (inodesIn_empty D H s _)
    · rw [if_neg hend]
      refine ⟨?_, ?_⟩
      · simp only [writes, hdir, if_neg hend]
        exact tree_readdirLoop V.toRuntime D _ rc fspath size offset _ 0 _ _
      · rw [flatMap_received_eq D H rc s fun _ => received_readdirLoop V D H rc s hdir]
        simp only [givenPaths, hdir, hend, false_or]
        split_ifs
        · rfl
        · rfl
        · rfl

end Readdir

/-- A request leaves the table, and gives the inodes, that can be read off it. -/
theorem does_serve (s : State W) (rc : ℕ → ℤ) (call : Call) :
    Does V D H s ⟨call, rc⟩ (serve V D H rc call s.tree s.world) := by
  have hkept : ∀ {call}, target H s call = none →
      (∀ inode size offset, call ≠ .readdir inode size offset) →
      givenPaths V H s ⟨call, rc⟩ = [] → writes H s ⟨call, rc⟩ = [] →
      wp (handle V D H rc call) (fun _ => TreeKept s) (TreeKept s) ⟨s.tree, s.world, .new⟩ →
        Does V D H s ⟨call, rc⟩ (serve V D H rc call s.tree s.world) := by
    intro call htarget hreaddir hgiven hwrites h
    refine does_of_target_eq_none htarget hreaddir hgiven ?_
    rw [hwrites]
    exact wp_final.1 h
  cases call with
  | lookup parent name => exact wp_final.1 (does_lookup parent name)
  | mkdir parent name mode => exact wp_final.1 (does_mkdir parent name mode)
  | link inode newParent newName => exact wp_final.1 (does_link inode newParent newName)
  | symlink parent target name => exact wp_final.1 (does_symlink parent target name)
  | create parent name mode fi => exact wp_final.1 (does_create parent name mode fi)
  | unlink parent name => exact wp_final.1 (does_unlink parent name)
  | rmdir parent name => exact wp_final.1 (does_rmdir parent name)
  | rename parent name newParent newName =>
    exact wp_final.1 (does_rename parent name newParent newName)
  | readdir inode size offset => exact does_readdir V D H rc s inode size offset
  | readlink inode => exact hkept rfl (by simp) (ite_self _) rfl (kept_readlink inode)
  | getattr inode => exact hkept rfl (by simp) (ite_self _) rfl (kept_getattr inode)
  | setattr inode attrs => exact hkept rfl (by simp) (ite_self _) rfl (kept_setattr inode attrs)
  | «open» inode fi => exact hkept rfl (by simp) (ite_self _) rfl (kept_open inode fi)
  | read size offset fi => exact hkept rfl (by simp) (ite_self _) rfl (kept_read size offset fi)
  | write inode buffer offset fi =>
    exact hkept rfl (by simp) (ite_self _) rfl (kept_write inode buffer offset fi)
  | mknod | opendir | statfs | getxattr | confirm =>
    exact hkept rfl (by simp) (ite_self _) rfl (wp_method_of_forall fun r => rfl)
  | bmap => exact hkept rfl (by simp) (ite_self _) rfl rfl

end NodeFuse.NodeFs
