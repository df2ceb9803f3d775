import NodeFuse.Arguments
import NodeFuse.NodeFsCalls
import NodeFuse.Proofs.NodeFsHandlers

/-!
# How often NodeFS replies

A method but for `readdir` replies once if nothing before its reply throws, and not at all otherwise
(`length_sent_serve`). `readdir` replies for every entry that does not fit and once more at its end, so
exactly one reply takes a directory that fits or two failures that make up for each other
(`replied_once_iff`).
-/

namespace NodeFuse.NodeFs

open Packing Reply Throwing ReplyMethods

variable {W : Type} (V : Platform) (D : DirentFormat) (H : Host W)

/-- Every request is replied to itself, but for `init`, `destroy` and `setxattr`, whose methods have no
`Reply`. -/
theorem addressee_invocation (U : Utf8) (S : Session) (m : Mem) (r : NodeFuse.Request) :
    (enter U (r.invocation S m)).map Prod.fst = if r.isSetXAttr then none else r.req? := by
  cases r <;> rfl

section Methods

variable {V H} {rc : ℕ → ℤ} {s : State W}

/-- Whatever libfuse returns for it, a call that the method accepts is one reply more. -/
theorem wp_accepted {m : Method} {args : List Value} {P : Served W → Prop} {t : Served W}
    (h : m.Accepts args) (hP : ∀ msg, P (t.replied msg)) :
    wp (method V rc m args) (fun _ => P) P t := by
  obtain ⟨msg, hcall⟩ := call_of_accepts V rc h t.reply
  exact (wp_method hcall).2 ⟨fun _ => hP msg, fun _ => hP msg⟩

theorem isInt32_int {n : ℤ} : (Value.int n).isInt32 ↔ -2 ^ 31 ≤ n ∧ n < 2 ^ 31 := by
  simp [Value.int, Value.isInt32]

theorem accepts_err {code : ℤ} (h : -2 ^ 31 ≤ code ∧ code < 2 ^ 31) :
    Method.err.Accepts [.int code] := isInt32_int.2 h

variable (H s)

/-- The call has replied as often as it should have. -/
def Sends (call : Call) (t : Served W) : Prop :=
  t.reply.sent.length = if answered H s call = some true then 1 else 0

variable {H s}

theorem sends_of_answered {call : Call} (h : answered H s call = some true) {t : Served W}
    (ht : t.reply.sent.length = 1) : Sends H s call t := by
  rw [Sends, if_pos h, ht]

theorem sends_of_not_answered {call : Call} (h : answered H s call ≠ some true) {t : Served W}
    (ht : t.reply.sent.length = 0) : Sends H s call t := by
  rw [Sends, if_neg h, ht]

theorem sends_lookup (parent : ℤ) (name : JsString) :
    wp (lookup V H rc parent name) (fun _ => Sends H s (.lookup parent name))
      (Sends H s (.lookup parent name)) ⟨s.tree, s.world, .new⟩ := by
  unfold lookup
  simp only [wp_bind, wp_pathAt, wp_ofOption, wp_gets]
  refine ⟨fun fspath hpath => ?_, fun hpath => ?_⟩
  · have hanswered : answered H s (.lookup parent name) = some true := by simp [answered, hpath]
    rcases (H.fs s.world).lstatSync fspath with _ | stats
    · exact wp_accepted (accepts_err (by decide)) fun _ => sends_of_answered hanswered rfl
    · simp only [wp_bind]
      refine (wp_method (entry_call V rc (hash fspath) rfl _)).2 ⟨fun _ => ?_, fun _ => ?_⟩
      · exact sends_of_answered hanswered rfl
      · exact (wp_setTree _ _).2 (sends_of_answered hanswered rfl)
  · exact sends_of_not_answered (by simp [answered, hpath]) rfl

/-- The end of the methods that make something on the host. -/
theorem sends_made {call : Call} {path : JsString} {w : W} {result : Option Value}
    {stat : W → Option Stats}
    (hanswered : answered H s call = result.bind fun exception =>
      some (concluded exception (stat w))) :
    (∀ exception, result = some exception →
      wp (if exception.truthy then err V rc PosixError.EIO
        else do
          let stats ← look stat
          setTree (hash path) path
          method V rc .entry [entryObject (hash path) (stamp (hash path) stats)])
        (fun _ => Sends H s call) (Sends H s call) ⟨s.tree, w, .new⟩)
      ∧ (result = none → Sends H s call ⟨s.tree, w, .new⟩) := by
  refine ⟨fun exception hresult => ?_, fun hresult => ?_⟩
  · rw [wp_ite]
    refine ⟨fun htruthy => ?_, fun htruthy => ?_⟩
    · exact wp_accepted (accepts_err (by decide)) fun _ =>
        sends_of_answered (by simp [hanswered, hresult, concluded, htruthy]) rfl
    · simp only [wp_bind, wp_look, wp_setTree]
      refine ⟨fun stats hstat => ?_, fun hstat => ?_⟩
      · exact wp_accepted ⟨rfl, rfl⟩ fun _ =>
          sends_of_answered (by simp [hanswered, hresult, concluded, hstat]) rfl
      · exact sends_of_not_answered
          (by simp [hanswered, hresult, concluded, htruthy, hstat]) rfl
  · exact sends_of_not_answered (by simp [hanswered, hresult]) rfl

theorem sends_mkdir (parent : ℤ) (name : JsString) (mode : ℤ) :
    wp (mkdir V H rc parent name mode) (fun _ => Sends H s (.mkdir parent name mode))
      (Sends H s (.mkdir parent name mode)) ⟨s.tree, s.world, .new⟩ := by
  unfold mkdir
  simp only [wp_bind, wp_pathAt, wp_ofOption, wp_sync]
  refine ⟨fun fspath hpath => ?_, fun hpath => ?_⟩
  · exact sends_made (by simp only [answered, hpath]; rfl)
  · exact sends_of_not_answered (by simp [answered, hpath]) rfl

theorem sends_link (inode newParent : ℤ) (newName : JsString) :
    wp (link V H rc inode newParent newName) (fun _ => Sends H s (.link inode newParent newName))
      (Sends H s (.link inode newParent newName)) ⟨s.tree, s.world, .new⟩ := by
  unfold link
  simp only [wp_bind, wp_pathAt, wp_ofOption, wp_sync]
  refine ⟨fun dstPath hpath => ⟨fun srcPath hsrc => ?_, fun hsrc => ?_⟩, fun hpath => ?_⟩
  · exact sends_made (by simp only [answered, hpath, hsrc]; rfl)
  · exact sends_of_not_answered (by simp [answered, hpath, hsrc]) rfl
  · exact sends_of_not_answered (by simp [answered, hpath]) rfl

theorem sends_symlink (parent : ℤ) (target name : JsString) :
    wp (symlink V H rc parent target name) (fun _ => Sends H s (.symlink parent target name))
      (Sends H s (.symlink parent target name)) ⟨s.tree, s.world, .new⟩ := by
  unfold symlink
  simp only [wp_bind, wp_pathAt, wp_ofOption, wp_sync]
  refine ⟨fun dstPath hpath => ?_, fun hpath => ?_⟩
  · exact sends_made (by simp only [answered, hpath]; rfl)
  · exact sends_of_not_answered (by simp [answered, hpath]) rfl

theorem sends_create (parent : ℤ) (name : JsString) (mode : ℤ) (fileInfo : FuseFileInfo) :
    wp (create V H rc parent name mode fileInfo)
      (fun _ => Sends H s (.create parent name mode fileInfo))
      (Sends H s (.create parent name mode fileInfo)) ⟨s.tree, s.world, .new⟩ := by
  unfold create
  simp only [wp_bind, wp_pathAt, wp_ofOption, wp_sync]
  refine ⟨fun fspath hpath => ⟨fun fd hfd => ?_, fun hfd => ?_⟩, fun hpath => ?_⟩
  · rw [wp_ite]
    refine ⟨fun hnan => ?_, fun hnan => ?_⟩
    · exact wp_accepted (accepts_err (by decide)) fun _ =>
        sends_of_answered (by simp [answered, hpath, hfd, hnan]) rfl
    · simp only [wp_bind, wp_look, wp_setTree, setFh_eq, wp_pure]
      refine ⟨fun stats hstat => ?_, fun hstat => ?_⟩
      · exact wp_accepted ⟨rfl, rfl, rfl⟩ fun _ =>
          sends_of_answered (by simp [answered, hpath, hfd, hstat]) rfl
      · exact sends_of_not_answered (by simp [answered, hpath, hfd, hnan, hstat]) rfl
  · exact sends_of_not_answered (by simp [answered, hpath, hfd]) rfl
  · exact sends_of_not_answered (by simp [answered, hpath]) rfl

theorem sends_unlink (parent : ℤ) (name : JsString) :
    wp (unlink V H rc parent name) (fun _ => Sends H s (.unlink parent name))
      (Sends H s (.unlink parent name)) ⟨s.tree, s.world, .new⟩ := by
  unfold unlink
  simp only [wp_bind, wp_pathAt, wp_ofOption, wp_sync, wp_ite, wp_deleteTree]
  refine ⟨fun fspath hpath => ⟨fun exception hresult => ?_, fun hresult => ?_⟩, fun hpath => ?_⟩
  · have hanswered : answered H s (.unlink parent name) = some true := by
      simp [answered, hpath, hresult]
    exact ⟨fun _ => wp_accepted (accepts_err (by decide)) fun _ =>
        sends_of_answered hanswered rfl,
      fun _ => wp_accepted (accepts_err (by decide)) fun _ => sends_of_answered hanswered rfl⟩
  · exact sends_of_not_answered (by simp [answered, hpath, hresult]) rfl
  · exact sends_of_not_answered (by simp [answered, hpath]) rfl

theorem sends_rmdir (parent : ℤ) (name : JsString) :
    wp (rmdir V H rc parent name) (fun _ => Sends H s (.rmdir parent name))
      (Sends H s (.rmdir parent name)) ⟨s.tree, s.world, .new⟩ := by
  unfold rmdir
  simp only [wp_bind, wp_pathAt, wp_ofOption, wp_sync, wp_ite, wp_deleteTree]
  refine ⟨fun fspath hpath => ⟨fun exception _ => ?_, fun hresult => ?_⟩, fun hpath => ?_⟩
  · have hanswered : answered H s (.rmdir parent name) = some true := by simp [answered, hpath]
    exact ⟨fun _ => wp_accepted (accepts_err (by decide)) fun _ =>
        sends_of_answered hanswered rfl,
      fun _ => wp_accepted (accepts_err (by decide)) fun _ => sends_of_answered hanswered rfl⟩
  · cases hresult
  · exact sends_of_not_answered (by simp [answered, hpath]) rfl

theorem sends_rename (parent : ℤ) (name : JsString) (newParent : ℤ) (newName : JsString) :
    wp (rename V H rc parent name newParent newName)
      (fun _ => Sends H s (.rename parent name newParent newName))
      (Sends H s (.rename parent name newParent newName)) ⟨s.tree, s.world, .new⟩ := by
  unfold rename
  simp only [wp_bind, wp_pathAt, wp_ofOption, wp_sync]
  refine ⟨fun oldPath hold => ⟨fun newPath hnew => ⟨fun value hresult => ?_, fun hresult => ?_⟩,
    fun hnew => ?_⟩, fun hold => ?_⟩
  · have hanswered : answered H s (.rename parent name newParent newName) = some true := by
      simp [answered, hold, hnew, hresult]
    refine (wp_method (err_call V rc (by decide) _)).2 ⟨fun _ => ?_, fun _ => ?_⟩
    · exact sends_of_answered hanswered rfl
    · exact (wp_setTree _ _).2 (sends_of_answered hanswered rfl)
  · exact sends_of_not_answered (by simp [answered, hold, hnew, hresult]) rfl
  · exact sends_of_not_answered (by simp [answered, hold, hnew]) rfl
  · exact sends_of_not_answered (by simp [answered, hold]) rfl

theorem sends_getattr (inode : ℤ) : wp (getattr V H rc inode)
    (fun _ => Sends H s (.getattr inode)) (Sends H s (.getattr inode))
    ⟨s.tree, s.world, .new⟩ := by
  unfold getattr
  simp only [wp_bind, wp_pathAt, wp_gets]
  rcases (s.tree inode).bind (H.fs s.world).lstatSync with _ | stats
  · exact wp_accepted (accepts_err (by decide)) fun _ => sends_of_answered rfl rfl
  · exact wp_accepted ⟨rfl, fun h => by cases h⟩ fun _ => sends_of_answered rfl rfl

theorem sends_setattr (inode : ℤ) (attrs : Value) : wp (setattr V H rc inode attrs)
    (fun _ => Sends H s (.setattr inode attrs)) (Sends H s (.setattr inode attrs))
    ⟨s.tree, s.world, .new⟩ := by
  unfold setattr
  simp only [wp_bind, wp_pathAt, wp_ofOption, wp_sync, wp_ite, wp_look]
  refine ⟨fun fspath hpath => ⟨fun exception hresult => ⟨fun htruthy => ?_, fun htruthy =>
    ⟨fun stats hstat => ?_, fun hstat => ?_⟩⟩, fun hresult => ?_⟩, fun hpath => ?_⟩
  · exact wp_accepted (accepts_err (by decide)) fun _ =>
      sends_of_answered (by simp [answered, hpath, hresult, concluded, htruthy]) rfl
  · exact wp_accepted ⟨rfl, fun h => by cases h⟩ fun _ =>
      sends_of_answered (by simp [answered, hpath, hresult, concluded, hstat]) rfl
  · exact sends_of_not_answered
      (by simp [answered, hpath, hresult, concluded, htruthy, hstat]) rfl
  · exact sends_of_not_answered (by simp [answered, hpath, hresult]) rfl
  · exact sends_of_not_answered (by simp [answered, hpath]) rfl

theorem sends_open (inode : ℤ) (fileInfo : FuseFileInfo) :
    wp (NodeFs.open V H rc inode fileInfo) (fun _ => Sends H s (.open inode fileInfo))
      (Sends H s (.open inode fileInfo)) ⟨s.tree, s.world, .new⟩ := by
  unfold NodeFs.open
  simp only [wp_bind, wp_pathAt, wp_ofOption, wp_orElse, wp_sync, wp_ite, setFh_eq, wp_pure]
  have hopened : answered H s (.open inode fileInfo) = some true → ∀ (fd : Num) (w : W),
      (fd = .nan → wp (err V rc PosixError.EIO) (fun _ => Sends H s (.open inode fileInfo))
        (Sends H s (.open inode fileInfo)) ⟨s.tree, w, .new⟩)
      ∧ (¬ fd = .nan → wp (method V rc .open [.fileInfo
          { fileInfo with fh := (V.integerValue (.number fd)).toUInt64 }])
        (fun _ => Sends H s (.open inode fileInfo)) (Sends H s (.open inode fileInfo))
        ⟨s.tree, w, .new⟩) := by
    intro hanswered fd w
    exact ⟨fun _ => wp_accepted (accepts_err (by decide)) fun _ =>
        sends_of_answered hanswered rfl,
      fun _ => wp_accepted rfl fun _ => sends_of_answered hanswered rfl⟩
  refine ⟨fun fspath hpath => ⟨fun fd hfd => ?_, fun hfd => ⟨fun fd hfd' => ?_, fun hfd' => ?_⟩⟩,
    fun hpath => ?_⟩
  · exact hopened (by simp [answered, hpath, hfd]) fd _
  · exact hopened (by simp [answered, hpath, hfd, hfd']) fd _
  · exact sends_of_not_answered (by simp [answered, hpath, hfd, hfd']) rfl
  · exact sends_of_not_answered (by simp [answered, hpath]) rfl

theorem sends_read (size offset : ℤ) (fileInfo : FuseFileInfo) :
    wp (read V H rc size offset fileInfo) (fun _ => Sends H s (.read size offset fileInfo))
      (Sends H s (.read size offset fileInfo)) ⟨s.tree, s.world, .new⟩ := by
  have hbuffer : (newBuffer V size).isSome ↔ 0 ≤ size := by simp [newBuffer]
  unfold read
  simp only [wp_bind, wp_ofOption, wp_look]
  refine ⟨fun buf hbuf => ?_, fun hbuf => ?_⟩
  · have hsize : 0 ≤ size := hbuffer.1 (by rw [hbuf]; rfl)
    refine ⟨fun bytes hbytes => ?_, fun hbytes => ?_⟩
    · exact wp_accepted rfl fun _ => sends_of_answered (by simp [answered, hsize, hbytes]) rfl
    · exact sends_of_not_answered (by simp [answered, hbytes]) rfl
  · have hsize : ¬ 0 ≤ size := fun h => by
      rw [← hbuffer, hbuf] at h
      cases h
    exact sends_of_not_answered (by simp [answered, guard, hsize]) rfl

theorem sends_write (inode : ℤ) (buffer : List UInt8) (offset : ℤ) (fileInfo : FuseFileInfo) :
    wp (write V H rc inode buffer offset fileInfo)
      (fun _ => Sends H s (.write inode buffer offset fileInfo))
      (Sends H s (.write inode buffer offset fileInfo)) ⟨s.tree, s.world, .new⟩ := by
  unfold write
  simp only [wp_bind, wp_pathAt, wp_ofOption, wp_sync, wp_look]
  refine ⟨fun fspath hpath => ⟨fun content hcontent => ⟨fun bytes hbytes => ?_, fun hbytes => ?_⟩,
    fun hcontent => ?_⟩, fun hpath => ?_⟩
  · exact wp_accepted rfl fun _ =>
      sends_of_answered (by simp [answered, hpath, hcontent, hbytes]) rfl
  · exact sends_of_not_answered (by simp [answered, hpath, hbytes]) rfl
  · exact sends_of_not_answered (by simp [answered, hpath, hcontent]) rfl
  · exact sends_of_not_answered (by simp [answered, hpath]) rfl

theorem sends_readlink (inode : ℤ) : wp (readlink V H rc inode)
    (fun _ => Sends H s (.readlink inode)) (Sends H s (.readlink inode))
    ⟨s.tree, s.world, .new⟩ := by
  unfold readlink
  simp only [wp_bind, wp_pathAt, wp_ofOption, wp_look]
  refine ⟨fun dstPath hpath => ⟨fun srcPath hlink => ?_, fun hlink => ?_⟩, fun hpath => ?_⟩
  · exact wp_accepted rfl fun _ => sends_of_answered (by simp [answered, hpath, hlink]) rfl
  · exact sends_of_not_answered (by simp [answered, hpath, hlink]) rfl
  · exact sends_of_not_answered (by simp [answered, hpath]) rfl

theorem sends_opendir (fileInfo : FuseFileInfo) : wp (opendir V rc fileInfo)
    (fun _ => Sends H s (.opendir fileInfo)) (Sends H s (.opendir fileInfo))
    ⟨s.tree, s.world, .new⟩ := by
  unfold opendir
  exact wp_accepted rfl fun _ => sends_of_answered rfl rfl

theorem sends_statfs : wp (statfs V rc) (fun _ => Sends H s .statfs) (Sends H s .statfs)
    ⟨s.tree, s.world, .new⟩ := by
  unfold statfs
  exact wp_accepted rfl fun _ => sends_of_answered rfl rfl

/-- The size is a double, and `xattr` takes none that is no 32-bit integer. -/
theorem sends_getxattr (size : ℤ) : wp (getxattr V rc size)
    (fun _ => Sends H s (.getxattr size)) (Sends H s (.getxattr size))
    ⟨s.tree, s.world, .new⟩ := by
  unfold getxattr
  by_cases h : -2 ^ 31 ≤ size ∧ size < 2 ^ 31
  · have hanswered : answered H s (.getxattr size) = some true := congrArg some (decide_eq_true h)
    exact wp_accepted (isInt32_int.2 h) fun _ => sends_of_answered hanswered rfl
  · have hrejects : ¬ Method.xattr.Accepts [.int size] := fun ha => h (isInt32_int.1 ha)
    obtain ⟨e, hcall⟩ := call_of_rejects V rc hrejects trivial .new
    unfold wp method
    rw [hcall]
    exact sends_of_not_answered (by simpa [answered] using h) rfl

end Methods

/-- How many replies there are after so many entries that do not fit: if libfuse cannot send the empty
one, there is a second. -/
def overflows (rc : ℕ → ℤ) : ℕ → ℕ → ℕ
  | 0, sent => sent
  | passed + 1, sent => overflows rc passed (sent + if rc sent = -1 then 2 else 1)

theorem add_le_overflows (rc : ℕ → ℤ) : ∀ passed sent : ℕ,
    sent + passed ≤ overflows rc passed sent
  | 0, _ => le_rfl
  | passed + 1, sent => by
    have ih := add_le_overflows rc passed (sent + if rc sent = -1 then 2 else 1)
    rw [overflows]
    split_ifs at ih ⊢
    · omega
    · omega

theorem overflows_eq_zero_iff (rc : ℕ → ℤ) (passed : ℕ) :
    overflows rc passed 0 = 0 ↔ passed = 0 := by
  have hle := add_le_overflows rc passed 0
  refine ⟨fun h => by omega, ?_⟩
  rintro rfl
  rfl

theorem overflows_eq_one_iff (rc : ℕ → ℤ) (passed : ℕ) :
    overflows rc passed 0 = 1 ↔ passed = 1 ∧ rc 0 ≠ -1 := by
  have hle := add_le_overflows rc passed 0
  have hone : overflows rc 1 0 = if rc 0 = -1 then 2 else 1 := by simp [overflows]
  refine ⟨fun h => ?_, ?_⟩
  · have hpassed : passed = 1 := by
      rcases passed with _ | _ | passed
      · cases h
      · rfl
      · omega
    rw [hpassed, hone] at h
    refine ⟨hpassed, fun hrc => ?_⟩
    rw [if_pos hrc] at h
    cases h
  · rintro ⟨rfl, hrc⟩
    rw [hone, if_neg hrc]

section Readdir

theorem length_sent_of_represents (V : Runtime) (rc : ℕ → ℤ) {size : Num} :
    ∀ (calls : List DirCall) {cs : List DirCall} {r : Reply},
      Represents V D (requestedSize V size) cs r →
        (addAll V D rc size calls r).sent.length = overflows rc
          (passed DirCall.size (requestedSize V size) (total DirCall.size cs) calls).length
          r.sent.length
  | [], _, _, _ => rfl
  | c :: calls, cs, r, h => by
    have hnext := h.next rc c
    have haccepts := h.accepts_iff rc c
    have hroom := room_of_le h.within (requestedSize_lt V size)
    have hwithin := h.within
    rw [h.acc] at hroom hwithin
    rw [addAll_cons]
    by_cases hfit : total DirCall.size cs + c.size ≤ requestedSize V size
    · rw [haccepts.2 hfit, if_pos rfl] at hnext
      have hsent : (addDirEntry V D rc (c.args size) r).2.sent = r.sent :=
        sent_of_taken rc (by rw [h.acc]; omega)
      have htotal : total DirCall.size (cs ++ [c]) = total DirCall.size cs + c.size := by
        rw [total_append, total_cons, total_nil, Nat.add_zero]
      rw [passed, if_pos hfit, ← htotal, ← hsent]
      exact length_sent_of_represents V rc calls hnext
    · rw [if_neg fun hc => hfit (haccepts.1 hc), List.append_nil] at hnext
      have hsent : (addDirEntry V D rc (c.args size) r).2.sent.length
          = r.sent.length + if rc r.sent.length = -1 then 2 else 1 := by
        rw [show (addDirEntry V D rc (c.args size) r).2 = Reply.next V D rc size c r from rfl,
          sent_of_passed rc (by rw [h.acc]; omega)]
        split_ifs
        · simp
        · simp
      have ih := length_sent_of_represents V rc calls hnext
      rw [show Reply.next V D rc size c r = (addDirEntry V D rc (c.args size) r).2 from rfl, hsent] at ih
      rw [passed, if_neg hfit, List.length_cons, overflows, ih]

variable (V : Runtime) (fs : Fs) (rc : ℕ → ℤ)

/-- What the loop comes to does not depend on what is gathered. -/
theorem passed_calls (fspath : JsString) (offset : ℤ) (cap : ℕ) :
    ∀ (names : List JsString) (i used : ℕ), (∀ name ∈ names, EntryName name.utf8) →
      (passed DirCall.size cap used (calls fs fspath offset i names)).length
        = (passed (fun name => direntSize (JsString.utf8 name).length) cap used
          (names.takeWhile (hasStat fs fspath))).length
  | [], _, _, _ => rfl
  | name :: names, i, used, h => by
    have ih := fun used => passed_calls fspath offset cap names (i + 1) used
      fun n hn => h n (List.mem_cons_of_mem _ hn)
    unfold calls
    rcases hstat : fs.lstatSync (Path.join fspath name) with _ | stat
    · rw [List.takeWhile_cons_of_neg (by simp [hasStat, hstat])]
      rfl
    · have hsize : (callAt fspath offset i name stat).size = direntSize name.utf8.length := by
        unfold callAt DirCall.size
        rw [cstring_eq_self (h name List.mem_cons_self)]
      rw [List.takeWhile_cons_of_pos (by simp [hasStat, hstat]), passed, passed, hsize]
      split_ifs
      · exact ih _
      · rw [List.length_cons, List.length_cons, ih]

theorem length_sent_readdirLoop (fspath : JsString) (size offset : ℤ) (names : List JsString)
    (tree : Tree) (hvalid : ∀ name ∈ names, EntryName name.utf8) :
    (readdirLoop V D fs rc fspath size offset 0 names (tree, .new)).2.sent.length
      = overflows rc (passed (fun name => direntSize (JsString.utf8 name).length)
          (requestedSize V (.fin size)) 0 (names.takeWhile (hasStat fs fspath))).length 0
        + if ∀ name ∈ names, hasStat fs fspath name then 1 else 0 := by
  have hsent := length_sent_of_represents D V rc (calls fs fspath offset 0 names)
    (represents_new (V := V) (D := D) (requestedSize V (.fin size)))
  rw [total_nil, passed_calls fs fspath offset _ names 0 0 hvalid] at hsent
  by_cases hall : ∀ name ∈ names, hasStat fs fspath name
  · rw [readdirLoop_of_stats V D fs rc fspath size offset names 0 tree .new hall, if_pos hall]
    simp only []
    rw [buffer_sent, List.length_append, List.length_singleton, hsent]
    rfl
  · rw [readdirLoop_of_throw V D fs rc fspath size offset names 0 tree .new hall, if_neg hall]
    exact hsent

theorem readdirLoop_replies_once_iff (V : Platform) (fspath : JsString) (size offset : ℤ)
    (names : List JsString) (tree : Tree) (hnames : fs.readdirSync fspath = some names)
    (hmore : ¬ ((entries names).length : ℤ) ≤ offset + 1) :
    (readdirLoop V.toRuntime D fs rc fspath size offset 0 (entries names)
        (tree, .new)).2.sent.length = 1
      ↔ ReaddirRepliesOnce V rc fs fspath names size offset := by
  have hreached : reached fs fspath names = entries names
      ↔ ∀ name ∈ entries names, hasStat fs fspath name := List.takeWhile_eq_self_iff
  have hlength := length_sent_readdirLoop D V.toRuntime fs rc fspath size offset (entries names)
    tree (entries_valid hnames)
  rw [show (entries names).takeWhile (hasStat fs fspath) = reached fs fspath names from rfl]
    at hlength
  unfold ReaddirRepliesOnce
  rw [hlength]
  by_cases hall : ∀ name ∈ entries names, hasStat fs fspath name
  · rw [hreached.2 hall, if_pos hall, Nat.add_eq_right, overflows_eq_zero_iff,
      List.length_eq_zero_iff, passed_eq_nil_iff _ _ _ (Nat.zero_le _), zero_add]
    simp [hmore, entriesSize]
  · have hne : reached fs fspath names ≠ entries names := fun h => hall (hreached.1 h)
    rw [if_neg hall, Nat.add_zero, overflows_eq_one_iff]
    simp [hmore, hne, and_comm]

end Readdir

section Requests

variable (s : State W) (rc : ℕ → ℤ)

/-- A call but `readdir` replies once if nothing before throws, and else not at all. -/
theorem length_sent_serve (call : Call)
    (h : ∀ inode size offset, call ≠ .readdir inode size offset) :
    (serve V D H rc call s.tree s.world).reply.sent.length
      = if answered H s call = some true then 1 else 0 := by
  cases call with
  | lookup parent name => exact wp_final.1 (sends_lookup parent name)
  | mkdir parent name mode => exact wp_final.1 (sends_mkdir parent name mode)
  | link inode newParent newName => exact wp_final.1 (sends_link inode newParent newName)
  | symlink parent target name => exact wp_final.1 (sends_symlink parent target name)
  | create parent name mode fi => exact wp_final.1 (sends_create parent name mode fi)
  | unlink parent name => exact wp_final.1 (sends_unlink parent name)
  | rmdir parent name => exact wp_final.1 (sends_rmdir parent name)
  | rename parent name newParent newName =>
    exact wp_final.1 (sends_rename parent name newParent newName)
  | readdir inode size offset => exact absurd rfl (h inode size offset)
  | readlink inode => exact wp_final.1 (sends_readlink inode)
  | getattr inode => exact wp_final.1 (sends_getattr inode)
  | setattr inode attrs => exact wp_final.1 (sends_setattr inode attrs)
  | «open» inode fi => exact wp_final.1 (sends_open inode fi)
  | read size offset fi => exact wp_final.1 (sends_read size offset fi)
  | write inode buffer offset fi => exact wp_final.1 (sends_write inode buffer offset fi)
  | getxattr size => exact wp_final.1 (sends_getxattr size)
  | mknod | confirm =>
    exact wp_final.1 (wp_accepted (accepts_err (by decide)) fun _ => sends_of_answered rfl rfl)
  | opendir fi => exact wp_final.1 (sends_opendir fi)
  | statfs => exact wp_final.1 sends_statfs
  | bmap => rfl

theorem length_sent_eq_one_iff (call : Call) :
    (serve V D H rc call s.tree s.world).reply.sent.length = 1
      ↔ RepliesOnce V H s ⟨call, rc⟩ := by
  cases call with
  | readdir inode size offset =>
    have hreply : (serve V D H rc (.readdir inode size offset) s.tree s.world).reply
        = (readdir V.toRuntime D (H.fs s.world) rc inode size offset s.tree).2 := rfl
    rw [hreply]
    unfold readdir RepliesOnce
    rcases hdir : directory H inode s with _ | ⟨fspath, names⟩
    · have hread := hdir
      unfold directory at hread
      rw [hread]
      simp [Reply.new, hdir]
    · have hread := hdir
      have hnames := of_directory hdir
      unfold directory at hread
      rw [hread]
      simp only [hdir, Option.some.injEq, Prod.mk.injEq]
      by_cases hend : ((entries names).length : ℤ) ≤ offset + 1
      · rw [if_pos hend]
        refine iff_of_true ?_ ⟨fspath, names, ⟨rfl, rfl⟩, .inl hend⟩
        rw [buffer_sent]
        rfl
      · rw [if_neg hend, readdirLoop_replies_once_iff D (H.fs s.world) rc V fspath size offset
          names s.tree hnames hend]
        simp
  | _ =>
    rw [length_sent_serve V D H s rc _ (by simp)]
    unfold RepliesOnce
    simp

/-- A call sends exactly one reply where the state and the host let it, and more than one only for a
directory. -/
theorem replied_once_iff (call : Call) :
    ((serve V D H rc call s.tree s.world).reply.sent.length = 1 ↔ RepliesOnce V H s ⟨call, rc⟩)
      ∧ ((∀ inode size offset, call ≠ .readdir inode size offset) →
        (serve V D H rc call s.tree s.world).reply.sent.length ≤ 1) := by
  refine ⟨length_sent_eq_one_iff V D H s rc call, fun h => ?_⟩
  rw [length_sent_serve V D H s rc call h]
  split_ifs
  · exact le_rfl
  · exact Nat.zero_le 1

end Requests

end NodeFuse.NodeFs
