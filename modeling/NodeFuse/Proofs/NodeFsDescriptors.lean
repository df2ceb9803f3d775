import NodeFuse.NodeFsDescriptors
import NodeFuse.Proofs.NodeFsHandlers

/-!
# NodeFS runs out of descriptors

Only `open` and `create` change how many descriptors are in use (`keeps_handle`), and they add one for
each file the host opens. When there is no room any more, there never will be, and what needs a
descriptor is not replied to (`descriptors_run_out`).
-/

namespace NodeFuse.NodeFs

open Runs Throwing ReplyMethods

variable {W : Type} {V : Platform} {D : DirentFormat} {H : Host W} {rc : ℕ → ℤ}

section Keeps

variable {room : ℕ} {used : W → ℕ} {n : ℕ}

theorem keeps_handle (hH : Limited H room used) {call : Call}
    (hopen : ∀ inode fi, call ≠ .open inode fi)
    (hcreate : ∀ parent name mode fi, call ≠ .create parent name mode fi) :
    Keeps (OfWorld fun w => used w = n) (handle V D H rc call) := by
  cases call with
  | lookup parent name => exact keeps_lookup parent name
  | mkdir parent name mode =>
    exact keeps_bind (keeps_pathAt _) fun _ => keeps_bind (keeps_ofOption _) fun fspath =>
      keeps_bind (keeps_sync fun w hw => (hH.mkdirSync fspath mode w).trans hw) fun exception =>
        keeps_made exception _ _ _
  | link inode newParent newName =>
    exact keeps_bind (keeps_pathAt _) fun _ => keeps_bind (keeps_pathAt _) fun _ =>
      keeps_bind (keeps_ofOption _) fun dstPath => keeps_bind (keeps_ofOption _) fun srcPath =>
        keeps_bind (keeps_sync fun w hw => (hH.linkSync srcPath dstPath w).trans hw)
          fun exception => keeps_made exception _ _ _
  | symlink parent target name =>
    exact keeps_bind (keeps_pathAt _) fun _ => keeps_bind (keeps_ofOption _) fun dstPath =>
      keeps_bind (keeps_sync fun w hw => (hH.symlinkSync target dstPath w).trans hw) fun exception =>
        keeps_made exception _ _ _
  | unlink parent name =>
    exact keeps_bind (keeps_pathAt _) fun _ => keeps_bind (keeps_ofOption _) fun fspath =>
      keeps_bind (keeps_sync fun w hw => (hH.unlinkSync fspath w).trans hw) fun exception =>
        keeps_removed exception _
  | rmdir parent name =>
    exact keeps_bind (keeps_pathAt _) fun _ => keeps_bind (keeps_ofOption _) fun fspath =>
      keeps_bind (keeps_sync fun w hw => (hH.rmdir fspath w).trans hw) fun exception =>
        keeps_removed exception _
  | rename parent name newParent newName =>
    exact keeps_bind (keeps_pathAt _) fun _ => keeps_bind (keeps_ofOption _) fun oldPath =>
      keeps_bind (keeps_pathAt _) fun _ => keeps_bind (keeps_ofOption _) fun newPath =>
        keeps_bind (keeps_sync fun w hw => (hH.renameSync oldPath newPath w).trans hw) fun _ =>
          keeps_bind (keeps_method _ _) fun _ => keeps_setTree _ _
  | setattr inode attrs =>
    exact keeps_bind (keeps_pathAt _) fun _ => keeps_bind (keeps_ofOption _) fun fspath =>
      keeps_bind (keeps_sync fun w hw => (hH.chmodSync fspath _ w).trans hw) fun exception =>
        keeps_ite (keeps_method _ _) (keeps_bind (keeps_look _) fun _ => keeps_method _ _)
  | write inode buffer offset fi =>
    exact keeps_bind (keeps_pathAt _) fun _ => keeps_bind (keeps_ofOption _) fun fspath =>
      keeps_bind (keeps_look _) fun _ =>
        keeps_bind (keeps_sync fun w hw => (hH.writeSync _ buffer offset w).trans hw) fun _ =>
          keeps_method _ _
  | readlink inode =>
    exact keeps_bind (keeps_pathAt _) fun _ => keeps_bind (keeps_ofOption _) fun _ =>
      keeps_bind (keeps_look _) fun _ => keeps_method _ _
  | getattr inode =>
    simp only [handle, getattr]
    refine keeps_bind (keeps_pathAt _) fun fspath => keeps_bind (keeps_gets _) fun w => ?_
    rcases fspath.bind (H.fs w).lstatSync with _ | stats
    · exact keeps_method _ _
    · exact keeps_method _ _
  | read size offset fi =>
    exact keeps_bind (keeps_ofOption _) fun _ => keeps_bind (keeps_look _) fun _ => keeps_method _ _
  | readdir inode size offset => exact keeps_modify fun _ h => h
  | «open» inode fi => exact absurd rfl (hopen inode fi)
  | create parent name mode fi => exact absurd rfl (hcreate parent name mode fi)
  | mknod | opendir | statfs | getxattr | confirm => exact keeps_method _ _
  | bmap => exact keeps_throw

end Keeps

section Step

/-- One more descriptor is in use than before the call if the host opened a file for it, and as many if
not. -/
def Charged (H : Host W) (used : W → ℕ) (s : State W) (call : Call) (w : W) : Prop :=
  used w = used s.world + if opens H s call then 1 else 0

variable {room : ℕ} {used : W → ℕ} (hH : Limited H room used)

include hH

theorem used_openSync (path : JsString) (flags : String) (mode : Option ℤ) (w : W) :
    used (H.openSync path flags mode w).2
      = used w + if (H.openSync path flags mode w).1.isSome then 1 else 0 := by
  by_cases h : (H.openSync path flags mode w).1.isSome
  · rw [if_pos h]
    exact (hH.openSync_some path flags mode w h).2
  · rw [if_neg h]
    exact hH.openSync_none path flags mode w (Option.not_isSome_iff_eq_none.1 h)

theorem charged_open (s : State W) (inode : ℤ) (fi : FuseFileInfo) :
    wp (NodeFs.open V H rc inode fi) (fun _ => OfWorld (Charged H used s (.open inode fi)))
      (OfWorld (Charged H used s (.open inode fi))) ⟨s.tree, s.world, .new⟩ := by
  unfold NodeFs.open
  simp only [wp_bind, wp_pathAt, wp_ofOption, wp_orElse, wp_sync]
  refine ⟨fun fspath hpath => ?_, fun hpath => by simp [OfWorld, Charged, opens, hpath]⟩
  have hfirst := used_openSync hH fspath "a+" none s.world
  have hsecond := used_openSync hH fspath "r" none (H.openSync fspath "a+" none s.world).2
  have hend : ∀ (fd : Num) (w : W), Charged H used s (.open inode fi) w →
      wp (if fd = .nan then err V rc PosixError.EIO
        else do
          let fi ← setFh V fd fi
          method V rc .open [.fileInfo fi])
        (fun _ => OfWorld (Charged H used s (.open inode fi)))
        (OfWorld (Charged H used s (.open inode fi))) ⟨s.tree, w, .new⟩ := fun fd w hw =>
    keeps_ite (keeps_method _ _) (keeps_bind (keeps_pure _) fun _ => keeps_method _ _) _ hw
  refine ⟨fun fd hfd => hend fd _ ?_, fun hnone => ⟨fun fd hfd => hend fd _ ?_, fun hnone' => ?_⟩⟩
  · unfold Charged
    rw [hfirst]
    simp [opens, hpath, hfd]
  · unfold Charged
    rw [hsecond, hfirst]
    simp [opens, hpath, hnone, hfd]
  · show used _ = _
    rw [hsecond, hfirst]
    simp [opens, hpath, hnone, hnone']

theorem charged_create (s : State W) (parent : ℤ) (name : JsString) (mode : ℤ)
    (fi : FuseFileInfo) :
    wp (create V H rc parent name mode fi)
      (fun _ => OfWorld (Charged H used s (.create parent name mode fi)))
      (OfWorld (Charged H used s (.create parent name mode fi))) ⟨s.tree, s.world, .new⟩ := by
  unfold create
  simp only [wp_bind, wp_pathAt, wp_ofOption, wp_sync]
  refine ⟨fun fspath hpath => ?_, fun hpath => by simp [OfWorld, Charged, opens, hpath]⟩
  have hused := used_openSync hH fspath "w+" (some mode) s.world
  refine ⟨fun fd hfd => ?_, fun hnone => ?_⟩
  · refine keeps_ite (keeps_method _ _) (keeps_bind (keeps_look _) fun _ =>
      keeps_bind (keeps_setTree _ _) fun _ => keeps_bind (keeps_pure _) fun _ =>
        keeps_method _ _) _ ?_
    show used _ = _
    rw [hused]
    simp [opens, hpath, hfd]
  · show used _ = _
    rw [hused]
    simp [opens, hpath, hnone]

theorem charged_serve (s : State W) (call : Call) :
    Charged H used s call (serve V D H rc call s.tree s.world).world := by
  cases call with
  | «open» inode fi => exact wp_final.1 (charged_open hH s inode fi)
  | create parent name mode fi => exact wp_final.1 (charged_create hH s parent name mode fi)
  | _ =>
    -- the host opens nothing for the others
    exact (keeps_handle hH (by simp) (by simp)).final rfl

theorem opens_eq_false {s : State W} (h : room ≤ used s.world) (call : Call) :
    opens H s call = false := by
  have hnone : ∀ path flags mode w, room ≤ used w →
      (H.openSync path flags mode w).1.isSome = false := by
    intro path flags mode w hw
    by_contra hsome
    have hlt := (hH.openSync_some path flags mode w (eq_true_of_ne_false hsome)).1
    omega
  cases call with
  | «open» inode fi =>
    rcases htree : s.tree inode with _ | fspath
    · simp [opens, htree]
    · have hfirst := hnone fspath "a+" none _ h
      have hused := used_openSync hH fspath "a+" none s.world
      simp only [hfirst] at hused
      have hsecond := hnone fspath "r" none _ (by rw [hused]; exact h)
      simp [opens, htree, hfirst, hsecond]
  | create parent name mode fi =>
    rcases hjoin : join H (s.tree parent) name with _ | fspath
    · simp [opens, hjoin]
    · simp [opens, hjoin, hnone fspath "w+" (some mode) _ h]
  | _ => rfl

/-- Without room a call that needs a descriptor throws. -/
theorem sent_eq_nil_of_full {s : State W} (h : room ≤ used s.world) {call : Call}
    (hneeds : needsDescriptor call) : (serve V D H rc call s.tree s.world).reply.sent = [] := by
  have hopens := opens_eq_false hH h call
  cases call with
  | «open» inode fi =>
    refine (wp_final (x := NodeFs.open V H rc inode fi) (P := fun s' => s'.reply.sent = [])).1 ?_
    unfold NodeFs.open
    simp only [wp_bind, wp_pathAt, wp_ofOption, wp_orElse, wp_sync]
    refine ⟨fun fspath hpath => ?_, fun _ => rfl⟩
    simp only [opens, hpath, Option.any_some, Bool.or_eq_false_iff] at hopens
    refine ⟨fun fd hfd => ?_, fun _ => ⟨fun fd hfd => ?_, fun _ => rfl⟩⟩
    · rw [hfd] at hopens
      cases hopens.1
    · rw [hfd] at hopens
      cases hopens.2
  | create parent name mode fi =>
    refine (wp_final (x := create V H rc parent name mode fi) (P := fun s' => s'.reply.sent = [])).1 ?_
    unfold create
    simp only [wp_bind, wp_pathAt, wp_ofOption, wp_sync]
    refine ⟨fun fspath hpath => ⟨fun fd hfd => ?_, fun _ => rfl⟩, fun _ => rfl⟩
    simp only [opens, hpath, Option.any_some, hfd] at hopens
    cases hopens
  | write inode buffer offset fi =>
    refine (wp_final (x := write V H rc inode buffer offset fi)
      (P := fun s' => s'.reply.sent = [])).1 ?_
    unfold write
    simp only [wp_bind, wp_pathAt, wp_ofOption, wp_look]
    refine ⟨fun fspath _ => ⟨fun content hcontent => ?_, fun _ => rfl⟩, fun _ => rfl⟩
    rw [hH.readFileSync s.world fspath h] at hcontent
    cases hcontent
  | readdir inode size offset =>
    show (readdir V.toRuntime D (H.fs s.world) rc inode size offset s.tree).2.sent = []
    unfold readdir
    rcases s.tree inode with _ | fspath
    · rfl
    · rw [Option.bind_some, hH.readdirSync s.world fspath h]
      rfl
  | _ => cases hneeds

/-- In every run the descriptors in use are those from before and one for each file that the host opened,
whatever was released; and once there is no room, no later `open`, `create`, `write` or `readdir` is
ever replied to. -/
theorem descriptors_run_out (w : W) (hw : used w ≤ room) (es : List Request) (s : State W)
    (h : run (step V D H) (.init w) es = some s) :
    used s.world = used w + count (step V D H) (fun s e => opens H s e.call) (.init w) es
      ∧ used s.world ≤ room
      ∧ (used s.world = room → ∀ fs, Along (step V D H) (fun s e => needsDescriptor e.call →
        (serve V D H e.rc e.call s.tree s.world).reply.sent = []) s fs) := by
  have hstep : ∀ (s : State W) (e : Request) s', step V D H s e = some s' →
      used s'.world = used s.world + if opens H s e.call then 1 else 0 := by
    rintro s e _ ⟨⟩
    exact charged_serve hH s e.call
  have hroom : ∀ (s : State W) (e : Request) s', used s.world ≤ room →
      step V D H s e = some s' → used s'.world ≤ room := by
    intro s e s' hs hs'
    rw [hstep s e s' hs']
    by_cases hfull : room ≤ used s.world
    · rw [opens_eq_false hH hfull]
      exact hs
    · split_ifs <;> omega
  have hfull : ∀ (s : State W) (e : Request) s', used s.world = room →
      step V D H s e = some s' → used s'.world = room := by
    intro s e s' hs hs'
    rw [hstep s e s' hs', opens_eq_false hH hs.ge]
    exact hs
  refine ⟨measure_eq_add_count (fun s => used s.world) hstep h,
    inv_of_any_run hroom hw h, fun hs fs => ?_⟩
  exact along_of_inv hfull (fun s e s' hs _ hneeds => sent_eq_nil_of_full hH hs.ge hneeds) hs
    (run_total _ fs s)

end Step

/-- A host with room for two descriptors, whose state is how many are in use. -/
def narrow : Host ℕ where
  fs n := ⟨fun _ => if n < 2 then some [] else none, fun _ => some [],
    fun _ names h name hname => by split_ifs at h; cases h; cases hname⟩
  statSync _ _ := some []
  readlinkSync _ _ := some []
  readFileSync n _ := if n < 2 then some [] else none
  mkdirSync _ _ n := (some .undefined, n)
  unlinkSync _ n := (some .undefined, n)
  rmdir _ n := (true, n)
  linkSync _ _ n := (some .undefined, n)
  symlinkSync _ _ n := (some .undefined, n)
  renameSync _ _ n := (some .undefined, n)
  chmodSync _ _ n := (some .undefined, n)
  openSync _ _ _ n := if n < 2 then (some (.fin (3 + n : ℤ)), n + 1) else (none, n)
  writeSync _ bytes _ n := (some bytes.length, n)
  read _ _ _ _ := some []
  joinUndefined _ := none

theorem openSync_narrow (path : JsString) (flags : String) (mode : Option ℤ) (n : ℕ) :
    narrow.openSync path flags mode n
      = if n < 2 then (some (.fin (3 + n : ℤ)), n + 1) else (none, n) := rfl

theorem limited_narrow : Limited narrow 2 id where
  openSync_some path flags mode n h := by
    rw [openSync_narrow] at h ⊢
    split_ifs at h ⊢ with hn
    · exact ⟨hn, rfl⟩
    · cases h
  openSync_none path flags mode n h := by
    rw [openSync_narrow] at h ⊢
    split_ifs at h ⊢ with hn
    rfl
  readFileSync _ _ h := if_neg (Nat.not_lt.2 h)
  readdirSync _ _ h := if_neg (Nat.not_lt.2 h)
  mkdirSync _ _ _ := rfl
  unlinkSync _ _ := rfl
  rmdir _ _ := rfl
  linkSync _ _ _ := rfl
  symlinkSync _ _ _ := rfl
  renameSync _ _ _ := rfl
  chmodSync _ _ _ := rfl
  writeSync _ _ _ _ := rfl

/-- Opened and released twice, the file cannot be opened again. -/
theorem third_open_unanswered :
    Along (step .amd64 .linux narrow) (fun s e => needsDescriptor e.call →
        (serve .amd64 .linux narrow e.rc e.call s.tree s.world).reply.sent = [])
      ([⟨.open 1 default, Reply.succeed⟩, ⟨.confirm, Reply.succeed⟩, ⟨.open 1 default, Reply.succeed⟩,
        ⟨.confirm, Reply.succeed⟩].foldl (next .amd64 .linux narrow) (.init 0))
      [⟨.open 1 default, Reply.succeed⟩] := by
  have hout := descriptors_run_out (V := .amd64) (D := .linux) limited_narrow 0 (by decide)
    [⟨.open 1 default, Reply.succeed⟩, ⟨.confirm, Reply.succeed⟩, ⟨.open 1 default, Reply.succeed⟩,
      ⟨.confirm, Reply.succeed⟩] _ (run_total _ _ _)
  exact hout.2.2 rfl _

end NodeFuse.NodeFs
