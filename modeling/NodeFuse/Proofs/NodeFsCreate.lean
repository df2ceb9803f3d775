import NodeFuse.NodeFsCreate
import NodeFuse.Proofs.NodeFsData

/-!
# When a file that NodeFS creates is a byte array

A descriptor that `create` opened writes where it is told, so the writes through it need not be at the
end. Reads are answered as those of an opened file are (`created_file_is_array_iff`).
-/

namespace NodeFuse.NodeFsCreate

open NodeFs
open NodeFsData (File Target Offset Descriptors host pread pwrite integer_new_offset served_open
  served_read_content served_write sent_read_iff)
open Reply (succeed)
open ReplyMethods Runs Splice Throwing

theorem served_create {W : Type} (V : Platform) {H : Host W} {tree : Tree} {parent mode : ℤ}
    {name path : JsString} {w w' : W} {fi : FuseFileInfo} {fd : Num} {stats : Stats}
    (hpath : join H (tree parent) name = some path)
    (hopen : H.openSync path "w+" (some mode) w = (some fd, w')) (hfd : fd ≠ .nan)
    (hstat : H.statSync w' path = some stats) :
    final (NodeFs.create V H succeed parent name mode fi) ⟨tree, w, .new⟩ = Served.replied
      ⟨Function.update tree (hash path) (some path), w', .new⟩
      (.create (entrySent V (hash path) (stamp (hash path) stats))
        { fi with fh := (V.integerValue (.number fd)).toUInt64 }) := by
  refine wp_final (P := fun s' : Served W => s' = _) |>.1 ?_
  unfold NodeFs.create
  simp only [wp_bind, wp_pathAt, hpath, wp_ofOption, wp_sync, hopen, wp_ite, hfd, wp_look, hstat,
    wp_setTree, setFh_eq, wp_pure, Option.some.injEq, forall_eq', reduceCtorEq, false_imp_iff,
    and_true, not_false_eq_true, true_imp_iff, true_and]
  exact (wp_method (create_call V succeed (hash path) rfl _ _)).2 ⟨fun _ => rfl, fun _ => rfl⟩

section File

variable {path : JsString} {N : Descriptors} {f : File} {fd : Value}

theorem openSync_eq (flags : String) (mode : Option ℤ) : (host path N).openSync path flags mode f
    = (some (.fin (N.number f.opened.length : ℤ)), ⟨if flags = "w+" then [] else f.content,
      (N.number f.opened.length, flags) :: f.opened⟩) := by
  show (if path = path then _ else _) = _
  rw [if_pos rfl]

theorem writeSync_of_pwrite {flags : String} {bytes content : List UInt8} {offset : ℤ}
    (h : f.flags fd = some flags) (hwrite : pwrite flags f.content bytes offset = some content) :
    (host path N).writeSync fd bytes offset f
      = (some (bytes.length : ℤ), { f with content }) := by
  have hbind : (f.flags fd).bind (fun flags => pwrite flags f.content bytes offset)
      = some content := by
    rw [h]
    exact hwrite
  simp only [host, hbind]

end File

/-- The flags that NodeFS opens with, and then writes. -/
def Writable (flags : String) : Prop := flags = "a+" ∨ flags = "w+"

/-- The inode leads to the file, and every handle given is a descriptor. -/
structure Opened (T : Target) (s : State) : Prop where
  found : s.tree (Number.new T.inode.toNat) = some T.path
  small : ∀ fh ∈ s.handles, fh.toNat < 2 ^ 31
  flags : ∀ fh ∈ s.handles, ∃ flags, Writable flags ∧ s.file.opened.lookup fh.toNat = some flags

theorem opened_init (T : Target) (content : List UInt8) : Opened T (.init T content) :=
  ⟨T.found, by simp [State.init], by simp [State.init]⟩

/-- What a write leaves of the bytes. -/
def written (flags : String) (content bytes : List UInt8) (offset : Offset) : List UInt8 :=
  if flags = "a+" then content ++ bytes else splice 0 content offset.1 bytes

theorem pwrite_eq {flags : String} (h : Writable flags) (content bytes : List UInt8)
    (offset : Offset) :
    pwrite flags content bytes (Integer.new offset.1) = some (written flags content bytes offset) := by
  rw [integer_new_offset]
  rcases h with rfl | rfl
  · rfl
  · rfl

section Requests

variable (T : Target) {s : State}

theorem flags_of_handle (h : Opened T s) {fi : FuseFileInfo} (hfh : fi.fh ∈ s.handles) :
    ∃ flags, Writable flags ∧ s.file.flags (FileInfo.getFileHandle fi) = some flags := by
  obtain ⟨flags, hflags, hlookup⟩ := h.flags fi.fh hfh
  have hsmall := h.small fi.fh hfh
  have hint : Integer.new fi.fh.toNat = fi.fh.toNat := Integer.new_eq_iff.2 (by omega)
  refine ⟨flags, hflags, ?_⟩
  unfold FileInfo.getFileHandle File.flags
  rw [hint]
  simp [Value.int, hlookup]

/-- A new descriptor has its number for a handle. -/
theorem handle_of_number (n : ℕ) : ∃ fh : UInt64, fh.toNat = T.descriptors.number n
    ∧ (T.platform.integerValue (.int (T.descriptors.number n))).toUInt64 = fh := by
  have hlt := T.descriptors.number_lt n
  have hfh := FileInfo.toNat_of_integerValue T.platform.toRuntime
    (Int.natCast_nonneg (T.descriptors.number n)) (by omega)
  exact ⟨_, Int.natCast_inj.1 hfh, rfl⟩

theorem next_create {parent : UInt64} {name : JsString} {mode : UInt32} {fi : FuseFileInfo}
    (h : Possible T s (.create parent name mode fi)) : ∃ fh : UInt64,
    fh.toNat = T.descriptors.number s.file.opened.length
      ∧ next T s (.create parent name mode fi)
        = ⟨Function.update s.tree (hash T.path) (some T.path),
          ⟨[], (fh.toNat, "w+") :: s.file.opened⟩, s.handles ++ [fh]⟩ := by
  obtain ⟨fh, hnumber, hfh⟩ := handle_of_number T s.file.opened.length
  have hserved : served T s (.create parent name mode fi) = Served.replied
      ⟨Function.update s.tree (hash T.path) (some T.path),
        ⟨[], (T.descriptors.number s.file.opened.length, "w+") :: s.file.opened⟩, .new⟩
      (.create (entrySent T.platform (hash T.path) (stamp (hash T.path) []))
        { fi with fh := (T.platform.integerValue
          (.int (T.descriptors.number s.file.opened.length))).toUInt64 }) :=
    served_create T.platform h (openSync_eq "w+" _) (by simp) (if_pos rfl)
  rw [hfh] at hserved
  refine ⟨fh, hnumber, ?_⟩
  unfold next
  rw [hserved, hnumber]
  rfl

theorem next_open (h : Opened T s) (fi : FuseFileInfo) : ∃ fh : UInt64,
    fh.toNat = T.descriptors.number s.file.opened.length
      ∧ next T s (.data (.open fi)) = ⟨s.tree, ⟨s.file.content, (fh.toNat, "a+") :: s.file.opened⟩,
        s.handles ++ [fh]⟩ := by
  obtain ⟨fh, hnumber, hfh⟩ := handle_of_number T s.file.opened.length
  have hserved : served T s (.data (.open fi)) = Served.replied
      ⟨s.tree, ⟨s.file.content, (T.descriptors.number s.file.opened.length, "a+")
        :: s.file.opened⟩, .new⟩
      (.open { fi with fh := (T.platform.integerValue
        (.int (T.descriptors.number s.file.opened.length))).toUInt64 }) :=
    served_open T.platform h.found (openSync_eq "a+" _) (by simp)
  rw [hfh] at hserved
  refine ⟨fh, hnumber, ?_⟩
  unfold next
  rw [hserved, hnumber]
  rfl

theorem next_write (h : Opened T s) {fi : FuseFileInfo} {flags : String} (hwritable : Writable flags)
    (hflags : s.file.flags (FileInfo.getFileHandle fi) = some flags) (bytes : List UInt8)
    (offset : Offset) : next T s (.data (.write fi bytes offset)) = ⟨s.tree,
      { s.file with content := written flags s.file.content bytes offset }, s.handles⟩ := by
  have hserved : served T s (.data (.write fi bytes offset)) = Served.replied
      ⟨s.tree, { s.file with content := written flags s.file.content bytes offset }, .new⟩
      (.write (T.platform.integerValue (.int bytes.length)).toUInt64) :=
    served_write T.platform h.found (if_pos rfl)
      (writeSync_of_pwrite hflags (pwrite_eq hwritable _ _ _))
  unfold next
  rw [hserved]
  exact congrArg (State.mk _ _) (List.append_nil _)

theorem served_read_handle (fi : FuseFileInfo) (size : UInt64) (offset : Offset) :
    served T s (.data (.read fi size offset))
      = final (NodeFs.read T.platform (host T.path T.descriptors) succeed (Integer.new size.toNat)
          (Integer.new offset.1) fi) ⟨s.tree, s.file, .new⟩ := rfl

theorem served_read_eq (h : Opened T s) {fi : FuseFileInfo} (hfh : fi.fh ∈ s.handles)
    (size : UInt64) (offset : Offset) : served T s (.data (.read fi size offset))
      = if Integer.new size.toNat < 0 then ⟨s.tree, s.file, .new⟩
        else Served.replied ⟨s.tree, s.file, .new⟩ (.buf (writeAt
          (T.platform.malloc (Integer.new size.toNat).toNat) 0
            (slice s.file.content offset.1 (Integer.new size.toNat).toNat))) := by
  obtain ⟨flags, -, hflags⟩ := flags_of_handle T h hfh
  rw [served_read_handle]
  exact served_read_content T.platform size offset fun _ _ => NodeFsData.read_of_flags hflags _ _

theorem next_read (h : Opened T s) {fi : FuseFileInfo} (hfh : fi.fh ∈ s.handles)
    (size : UInt64) (offset : Offset) : next T s (.data (.read fi size offset)) = s := by
  unfold next
  rw [served_read_eq T h hfh]
  split_ifs
  · exact congrArg (State.mk _ _) (List.append_nil _)
  · exact congrArg (State.mk _ _) (List.append_nil _)

/-- A read is answered with the bytes there are exactly when it asked for no more. -/
theorem answered_iff (h : Opened T s) {fi : FuseFileInfo} (hfh : fi.fh ∈ s.handles)
    (size : UInt64) (offset : Offset) :
    (served T s (.data (.read fi size offset))).reply.sent
        = [.buf (slice s.file.content offset.1 size.toNat)]
      ↔ Integer.new size.toNat = (min size.toNat (s.file.content.length - offset.1) : ℕ) := by
  obtain ⟨flags, -, hflags⟩ := flags_of_handle T h hfh
  rw [served_read_handle]
  exact sent_read_iff T.platform size offset fun _ _ => NodeFsData.read_of_flags hflags _ _

/-- What an `a+` or `w+` descriptor makes of a write is what a byte array does exactly for a write of
nothing, at the end, or through `w+`. -/
theorem written_eq_iff {flags : String} (hwritable : Writable flags) (content bytes : List UInt8)
    (offset : Offset) : written flags content bytes offset = splice 0 content offset.1 bytes
      ↔ bytes = [] ∨ offset.1 = content.length ∨ flags = "w+" := by
  unfold written
  rcases hwritable with rfl | rfl
  · rw [if_pos rfl, append_eq_splice_iff]
    simp
  · rw [if_neg (by decide)]
    simp

end Requests

section Run

variable (T : Target)

/-- A new descriptor. -/
theorem opened_cons {s : State} (h : Opened T s) {tree : Tree} {content : List UInt8} {fh : UInt64}
    {flags : String} (htree : tree (Number.new T.inode.toNat) = some T.path)
    (hfh : fh.toNat = T.descriptors.number s.file.opened.length) (hwritable : Writable flags) :
    Opened T ⟨tree, ⟨content, (fh.toNat, flags) :: s.file.opened⟩, s.handles ++ [fh]⟩ := by
  have hlt := T.descriptors.number_lt s.file.opened.length
  refine ⟨htree, fun fh' hfh' => ?_, fun fh' hfh' => ?_⟩
  · rcases List.mem_append.1 hfh' with hfh' | hfh'
    · exact h.small fh' hfh'
    · rw [List.mem_singleton.1 hfh']
      omega
  · show ∃ flags', Writable flags'
      ∧ List.lookup fh'.toNat ((fh.toNat, flags) :: s.file.opened) = some flags'
    rw [List.lookup_cons]
    by_cases heq : fh'.toNat = fh.toNat
    · rw [heq, beq_self_eq_true]
      exact ⟨flags, hwritable, rfl⟩
    · rw [beq_eq_false_iff_ne.2 heq]
      rcases List.mem_append.1 hfh' with hfh' | hfh'
      · exact h.flags fh' hfh'
      · exact absurd (congrArg UInt64.toNat (List.mem_singleton.1 hfh')) heq

theorem opened_step (s : State) (e : Event) (s' : State) (h : Opened T s)
    (hs : step T s e = some s') : Opened T s' := by
  obtain ⟨hpossible, hs⟩ := Option.ite_none_right_eq_some.1 hs
  obtain rfl := Option.some.inj hs
  cases e with
  | create parent name mode fi =>
    obtain ⟨fh, hfh, hnext⟩ := next_create T hpossible
    rw [hnext]
    refine opened_cons T h ?_ hfh (.inr rfl)
    rw [Function.update_apply]
    split_ifs
    · rfl
    · exact h.found
  | data e =>
    cases e with
    | «open» fi =>
      obtain ⟨fh, hfh, hnext⟩ := next_open T h fi
      rw [hnext]
      exact opened_cons T h h.found hfh (.inl rfl)
    | write fi bytes offset =>
      obtain ⟨flags, hwritable, hflags⟩ := flags_of_handle T h hpossible
      rw [next_write T h hwritable hflags]
      exact ⟨h.found, h.small, h.flags⟩
    | read fi size offset =>
      rw [next_read T h hpossible]
      exact h

theorem acts_iff {s : State} (h : Opened T s) (e : Event) : ActsAsArray T s e ↔ InBounds T s e := by
  by_cases hpossible : Possible T s e
  · have hstep : step T s e = some (next T s e) := if_pos hpossible
    have hacts : ActsAsArray T s e ↔ (next T s e).file.content = after s.file.content e
        ∧ ∀ bytes ∈ answer s.file.content e, (served T s e).reply.sent = [.buf bytes] := by
      unfold ActsAsArray
      rw [hstep]
      simp
    rw [hacts]
    unfold InBounds
    rw [forall_prop_of_true hpossible]
    cases e with
    | create parent name mode fi =>
      obtain ⟨fh, -, hnext⟩ := next_create T hpossible
      rw [hnext]
      simp [after, answer]
    | data e =>
      cases e with
      | «open» fi =>
        obtain ⟨fh, -, hnext⟩ := next_open T h fi
        rw [hnext]
        simp [after, answer, NodeFsData.after, NodeFsData.answer]
      | write fi bytes offset =>
        obtain ⟨flags, hwritable, hflags⟩ := flags_of_handle T h hpossible
        rw [next_write T h hwritable hflags]
        simp [after, answer, NodeFsData.after, NodeFsData.answer, written_eq_iff hwritable, hflags]
      | read fi size offset =>
        rw [next_read T h hpossible]
        simp [after, answer, NodeFsData.after, NodeFsData.answer, answered_iff T h hpossible]
  · have hstep : step T s e = none := if_neg hpossible
    refine iff_of_true (fun s' hs' => ?_) fun h => absurd h hpossible
    rw [hstep] at hs'
    cases hs'

/-- A file that may be created as well as opened acts as a byte array in all requests of a run exactly
when every write is of nothing, at the end or through a handle that its creation gave, and every read
asks for as many bytes as there are. -/
theorem created_file_is_array_iff (content : List UInt8) (es : List Event) :
    Along (step T) (ActsAsArray T) (.init T content) es
      ↔ Along (step T) (InBounds T) (.init T content) es :=
  along_congr (opened_step T) (fun _ e h => acts_iff T h e) es (opened_init T content)

end Run

end NodeFuse.NodeFsCreate
