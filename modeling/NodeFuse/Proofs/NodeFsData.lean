import NodeFuse.NodeFsData
import NodeFuse.Proofs.NodeFsHandlers

/-!
# When a file behind NodeFS is a byte array

`open` opens in append mode, so every write is appended, and `read` answers with as many bytes as it was
asked for. The file therefore acts as a byte array exactly while every write is at the end and no read
goes past it (`file_is_array_iff`).
-/

namespace NodeFuse.NodeFsData

open NodeFs
open Reply (succeed)
open ReplyMethods Runs Splice Throwing

section Host

variable {W : Type} (V : Platform) {H : Host W} {tree : Tree} {inode : ℤ} {path : JsString}
  {w w' : W} {fi : FuseFileInfo}

theorem write_call (rc : ℕ → ℤ) (count : ℤ) (r : Reply) : Method.write.call V rc [.int count] r
    = send V rc (.write (V.integerValue (.int count)).toUInt64) r := rfl

theorem served_write {content : List UInt8} {bytes : List UInt8} {offset count : ℤ}
    (hpath : tree inode = some path) (hfile : H.readFileSync w path = some content)
    (hwrite : H.writeSync (FileInfo.getFileHandle fi) bytes offset w = (some count, w')) :
    final (NodeFs.write V H succeed inode bytes offset fi) ⟨tree, w, .new⟩
      = Served.replied ⟨tree, w', .new⟩ (.write (V.integerValue (.int count)).toUInt64) := by
  refine wp_final (P := fun s' : Served W => s' = _) |>.1 ?_
  unfold NodeFs.write
  simp only [wp_bind, wp_pathAt, hpath, wp_ofOption, wp_look, wp_sync, hfile, hwrite,
    Option.some.injEq, forall_eq', reduceCtorEq, false_imp_iff, and_true]
  exact (wp_method (write_call V succeed _ _)).2 ⟨fun _ => rfl, fun _ => rfl⟩

theorem open_call (rc : ℕ → ℤ) (fi : FuseFileInfo) (r : Reply) :
    Method.open.call V rc [.fileInfo fi] r = send V rc (.open fi) r := rfl

theorem buffer_call (rc : ℕ → ℤ) (bytes : List UInt8) :
    Method.buffer.call V rc [.buffer bytes] .new = send V rc (.buf bytes) .new := rfl

theorem served_open {fd : Num} (hpath : tree inode = some path)
    (hopen : H.openSync path "a+" none w = (some fd, w')) (hfd : fd ≠ .nan) :
    final (NodeFs.open V H succeed inode fi) ⟨tree, w, .new⟩ = Served.replied ⟨tree, w', .new⟩
      (.open { fi with fh := (V.integerValue (.number fd)).toUInt64 }) := by
  refine wp_final (P := fun s' : Served W => s' = _) |>.1 ?_
  unfold NodeFs.open
  simp only [wp_bind, wp_pathAt, hpath, wp_ofOption, wp_orElse, wp_sync, hopen, wp_ite, hfd, setFh_eq,
    wp_pure, Option.some.injEq, forall_eq', reduceCtorEq, false_imp_iff, and_true,
    not_false_eq_true, true_imp_iff, true_and]
  exact (wp_method (open_call V succeed _ _)).2 ⟨fun _ => rfl, fun _ => rfl⟩

theorem served_read {size offset : ℤ} {bytes : List UInt8} (hsize : 0 ≤ size)
    (hread : H.read (FileInfo.getFileHandle fi) size.toNat offset w = some bytes) :
    final (NodeFs.read V H succeed size offset fi) ⟨tree, w, .new⟩
      = Served.replied ⟨tree, w, .new⟩ (.buf (writeAt (V.malloc size.toNat) 0 bytes)) := by
  refine wp_final (P := fun s' : Served W => s' = _) |>.1 ?_
  have hbuf : newBuffer V size = some (V.malloc size.toNat) := if_neg (by omega)
  unfold NodeFs.read
  simp only [wp_bind, wp_ofOption, hbuf, wp_look, hread, Option.some.injEq, forall_eq',
    reduceCtorEq, false_imp_iff, and_true]
  exact (wp_method (buffer_call V succeed _)).2 ⟨fun _ => rfl, fun _ => rfl⟩

theorem served_read_of_neg {size offset : ℤ} (hsize : size < 0) :
    final (NodeFs.read V H succeed size offset fi) ⟨tree, w, .new⟩ = ⟨tree, w, .new⟩ := by
  have hbuf : newBuffer V size = none := if_pos hsize
  unfold NodeFs.read
  rw [hbuf]
  rfl

/-- What is read is stored at the start of the buffer. -/
theorem writeAt_zero {block bytes : List UInt8} (h : bytes.length ≤ block.length) :
    writeAt block 0 bytes = bytes ++ block.drop bytes.length := by
  unfold writeAt
  rw [List.take_zero, List.nil_append, Nat.zero_add, List.take_of_length_le]
  rw [List.length_append, List.length_drop]
  omega

theorem integer_new_offset (offset : Offset) : Integer.new offset.1 = offset.1 :=
  Integer.new_eq_iff.2 (by have := offset.2; omega)

/-- A read of a file, whatever it asks for. -/
theorem served_read_content {content : List UInt8} (size : UInt64) (offset : Offset)
    (hread : ∀ size offset,
      H.read (FileInfo.getFileHandle fi) size offset w = some (pread content size offset)) :
    final (NodeFs.read V H succeed (Integer.new size.toNat) (Integer.new offset.1) fi)
        ⟨tree, w, .new⟩
      = if Integer.new size.toNat < 0 then ⟨tree, w, .new⟩
        else Served.replied ⟨tree, w, .new⟩ (.buf (writeAt
          (V.malloc (Integer.new size.toNat).toNat) 0
            (slice content offset.1 (Integer.new size.toNat).toNat))) := by
  by_cases hneg : Integer.new size.toNat < 0
  · rw [if_pos hneg]
    exact served_read_of_neg V hneg
  · have hpread : pread content (Integer.new size.toNat).toNat (Integer.new offset.1)
        = slice content offset.1 (Integer.new size.toNat).toNat := by
      rw [integer_new_offset]
      rfl
    have hbytes := hread (Integer.new size.toNat).toNat (Integer.new offset.1)
    rw [hpread] at hbytes
    rw [if_neg hneg]
    exact served_read V (by omega) hbytes

/-- It is answered with the bytes there are exactly when it asked for no more. -/
theorem sent_read_iff {content : List UInt8} (size : UInt64) (offset : Offset)
    (hread : ∀ size offset,
      H.read (FileInfo.getFileHandle fi) size offset w = some (pread content size offset)) :
    (final (NodeFs.read V H succeed (Integer.new size.toNat) (Integer.new offset.1) fi)
        ⟨tree, w, .new⟩).reply.sent = [.buf (slice content offset.1 size.toNat)]
      ↔ Integer.new size.toNat = (min size.toNat (content.length - offset.1) : ℕ) := by
  rw [served_read_content V size offset hread]
  by_cases hneg : Integer.new size.toNat < 0
  · rw [if_pos hneg]
    refine iff_of_false (fun hsent => ?_) (by omega)
    cases hsent
  · have hlen := V.length_malloc (Integer.new size.toNat).toNat
    have hfilled := filled_eq_slice_iff content offset.1 size.toNat
      (V.malloc (Integer.new size.toNat).toNat)
    rw [hlen, ← writeAt_zero (by rw [length_slice, hlen]; exact Nat.min_le_left _ _)] at hfilled
    rw [if_neg hneg]
    show [FuseReply.buf _] = _ ↔ _
    rw [List.cons.injEq, FuseReply.buf.injEq, and_iff_left rfl, hfilled]
    omega

end Host

section File

variable {path : JsString} {N : Descriptors} {f : File} {fd : Value}

theorem openSync_append (mode : Option ℤ) : (host path N).openSync path "a+" mode f
    = (some (.fin (N.number f.opened.length : ℤ)),
      ⟨f.content, (N.number f.opened.length, "a+") :: f.opened⟩) := by
  show (if path = path then _ else _) = _
  rw [if_pos rfl]
  rfl

theorem writeSync_of_append (h : f.flags fd = some "a+") (bytes : List UInt8) (offset : ℤ) :
    (host path N).writeSync fd bytes offset f
      = (some (bytes.length : ℤ), { f with content := f.content ++ bytes }) := by
  have hwrite : (f.flags fd).bind (fun flags => pwrite flags f.content bytes offset)
      = some (f.content ++ bytes) := by
    rw [h]
    rfl
  simp only [host, hwrite]

theorem read_of_flags {flags : String} (h : f.flags fd = some flags) (size : ℕ) (offset : ℤ) :
    (host path N).read fd size offset f = some (pread f.content size offset) := by
  show some (if (f.flags fd).isSome then _ else _) = _
  rw [h]
  rfl

end File

/-- Every handle given is a descriptor in append mode. -/
structure Appending (s : State) : Prop where
  small : ∀ fh ∈ s.handles, fh.toNat < 2 ^ 31
  append : ∀ fh ∈ s.handles, s.file.opened.lookup fh.toNat = some "a+"

theorem appending_init (content : List UInt8) : Appending (.init content) :=
  ⟨by simp [State.init], by simp [State.init]⟩

section Requests

variable (T : Target) {s : State}

theorem flags_of_handle (h : Appending s) {fi : FuseFileInfo} (hfh : fi.fh ∈ s.handles) :
    s.file.flags (FileInfo.getFileHandle fi) = some "a+" := by
  have hsmall := h.small fi.fh hfh
  have hint : Integer.new fi.fh.toNat = fi.fh.toNat := Integer.new_eq_iff.2 (by omega)
  unfold FileInfo.getFileHandle File.flags
  rw [hint]
  simp [Value.int, h.append fi.fh hfh]

theorem next_open (s : State) (fi : FuseFileInfo) : ∃ fh : UInt64,
    fh.toNat = T.descriptors.number s.file.opened.length
      ∧ next T s (.open fi) = ⟨⟨s.file.content, (fh.toNat, "a+") :: s.file.opened⟩,
        s.handles ++ [fh]⟩ := by
  have hlt := T.descriptors.number_lt s.file.opened.length
  have hserved : served T s (.open fi) = Served.replied
      ⟨T.tree, ⟨s.file.content, (T.descriptors.number s.file.opened.length, "a+")
        :: s.file.opened⟩, .new⟩
      (.open { fi with fh := (T.platform.integerValue
        (.int (T.descriptors.number s.file.opened.length))).toUInt64 }) :=
    served_open T.platform T.found (openSync_append none) (by simp)
  have hfh := FileInfo.toNat_of_integerValue T.platform.toRuntime
    (Int.natCast_nonneg (T.descriptors.number s.file.opened.length)) (by omega)
  refine ⟨_, Int.natCast_inj.1 hfh, ?_⟩
  unfold next
  rw [hserved, Int.natCast_inj.1 hfh]
  rfl

theorem next_write (h : Appending s) {fi : FuseFileInfo} (hfh : fi.fh ∈ s.handles)
    (bytes : List UInt8) (offset : Offset) : next T s (.write fi bytes offset)
      = ⟨{ s.file with content := s.file.content ++ bytes }, s.handles⟩ := by
  have hserved : served T s (.write fi bytes offset) = Served.replied
      ⟨T.tree, { s.file with content := s.file.content ++ bytes }, .new⟩
      (.write (T.platform.integerValue (.int bytes.length)).toUInt64) :=
    served_write T.platform T.found (if_pos rfl)
      (writeSync_of_append (flags_of_handle h hfh) bytes _)
  unfold next
  rw [hserved]
  exact congrArg (State.mk _) (List.append_nil _)

theorem served_read_handle (fi : FuseFileInfo) (size : UInt64) (offset : Offset) :
    served T s (.read fi size offset)
      = final (NodeFs.read T.platform (host T.path T.descriptors) succeed (Integer.new size.toNat)
          (Integer.new offset.1) fi) ⟨T.tree, s.file, .new⟩ := rfl

theorem served_read_eq (h : Appending s) {fi : FuseFileInfo} (hfh : fi.fh ∈ s.handles)
    (size : UInt64) (offset : Offset) : served T s (.read fi size offset)
      = if Integer.new size.toNat < 0 then ⟨T.tree, s.file, .new⟩
        else Served.replied ⟨T.tree, s.file, .new⟩ (.buf (writeAt
          (T.platform.malloc (Integer.new size.toNat).toNat) 0
            (slice s.file.content offset.1 (Integer.new size.toNat).toNat))) := by
  rw [served_read_handle]
  exact served_read_content T.platform size offset fun _ _ => read_of_flags (flags_of_handle h hfh) _ _

theorem next_read (h : Appending s) {fi : FuseFileInfo} (hfh : fi.fh ∈ s.handles)
    (size : UInt64) (offset : Offset) : next T s (.read fi size offset) = s := by
  unfold next
  rw [served_read_eq T h hfh]
  split_ifs
  · exact congrArg (State.mk _) (List.append_nil _)
  · exact congrArg (State.mk _) (List.append_nil _)

/-- A read is answered with the bytes there are exactly when it asked for no more. -/
theorem answered_iff (h : Appending s) {fi : FuseFileInfo} (hfh : fi.fh ∈ s.handles)
    (size : UInt64) (offset : Offset) :
    (served T s (.read fi size offset)).reply.sent
        = [.buf (slice s.file.content offset.1 size.toNat)]
      ↔ Integer.new size.toNat = (min size.toNat (s.file.content.length - offset.1) : ℕ) := by
  rw [served_read_handle]
  exact sent_read_iff T.platform size offset fun _ _ => read_of_flags (flags_of_handle h hfh) _ _

end Requests

section Run

variable (T : Target)

theorem appending_step (s : State) (e : Event) (s' : State) (h : Appending s)
    (hs : step T s e = some s') : Appending s' := by
  obtain ⟨hpossible, hs⟩ := Option.ite_none_right_eq_some.1 hs
  obtain rfl := Option.some.inj hs
  cases e with
  | «open» fi =>
    obtain ⟨fh, hfh, hnext⟩ := next_open T s fi
    have hlt := T.descriptors.number_lt s.file.opened.length
    rw [hnext]
    refine ⟨fun fh' hfh' => ?_, fun fh' hfh' => ?_⟩
    · rcases List.mem_append.1 hfh' with hfh' | hfh'
      · exact h.small fh' hfh'
      · rw [List.mem_singleton.1 hfh']
        omega
    · show List.lookup fh'.toNat ((fh.toNat, "a+") :: s.file.opened) = _
      rw [List.lookup_cons]
      split
      · rfl
      · rename_i hne
        rcases List.mem_append.1 hfh' with hfh' | hfh'
        · exact h.append fh' hfh'
        · rw [List.mem_singleton.1 hfh', beq_self_eq_true] at hne
          cases hne
  | write fi bytes offset =>
    rw [next_write T h hpossible]
    exact ⟨h.small, h.append⟩
  | read fi size offset =>
    rw [next_read T h hpossible]
    exact h

theorem acts_iff {s : State} (h : Appending s) (e : Event) :
    ActsAsArray T s e ↔ InBounds s e := by
  by_cases hpossible : e.Possible s.handles
  · have hstep : step T s e = some (next T s e) := if_pos hpossible
    have hacts : ActsAsArray T s e ↔ (next T s e).file.content = after s.file.content e
        ∧ ∀ bytes ∈ answer s.file.content e, (served T s e).reply.sent = [.buf bytes] := by
      unfold ActsAsArray
      rw [hstep]
      simp
    rw [hacts]
    unfold InBounds
    rw [forall_prop_of_true hpossible]
    cases e with
    | «open» fi =>
      obtain ⟨fh, -, hnext⟩ := next_open T s fi
      rw [hnext]
      simp [after, answer]
    | write fi bytes offset =>
      rw [next_write T h hpossible]
      simp [after, answer, append_eq_splice_iff]
    | read fi size offset =>
      rw [next_read T h hpossible]
      simp [after, answer, answered_iff T h hpossible]
  · have hstep : step T s e = none := if_neg hpossible
    refine iff_of_true (fun s' hs' => ?_) fun h => absurd h hpossible
    rw [hstep] at hs'
    cases hs'

/-- The file acts as a byte array in all requests of a run exactly when every write is of nothing or at
the end, and every read asks for as many bytes as there are. -/
theorem file_is_array_iff (content : List UInt8) (es : List Event) :
    Along (step T) (ActsAsArray T) (.init content) es ↔ Along (step T) InBounds (.init content) es :=
  along_congr (appending_step T) (fun _ e h => acts_iff T h e) es (appending_init content)

end Run

/-- A file at `/tmp/a`, and descriptors counted from 3. -/
def oneTarget : Target where
  platform := .amd64
  format := .linux
  descriptors := ⟨fun n => min (n + 3) 1023, fun n => by omega⟩
  tree := Function.update rootTree 2 (some "/tmp/a".toList)
  inode := 2
  path := "/tmp/a".toList
  found := rfl

/-- The handle of the first descriptor. -/
def firstHandle : FuseFileInfo := { (default : FuseFileInfo) with fh := 3 }

/-- A byte written at the start of a file that has one is appended, and two bytes asked for of a file of
one are answered with two. -/
theorem file_not_array :
    ¬ Along (step oneTarget) (ActsAsArray oneTarget) (.init [1])
      [.open default, .write firstHandle [2] ⟨0, by decide⟩]
    ∧ ¬ Along (step oneTarget) (ActsAsArray oneTarget) (.init [1])
      [.open default, .read firstHandle 2 ⟨0, by decide⟩] := by
  obtain ⟨fh, hfh, hnext⟩ := next_open oneTarget (.init [1]) default
  have hstep : step oneTarget (.init [1]) (.open default)
      = some (next oneTarget (.init [1]) (.open default)) := rfl
  have happending := appending_step oneTarget _ _ _ (appending_init [1]) hstep
  have hhandle : firstHandle.fh ∈ (next oneTarget (.init [1]) (.open default)).handles := by
    have hthree : fh = 3 := UInt64.toNat_inj.1 hfh
    rw [hnext, hthree]
    exact List.mem_singleton_self _
  have hcontent : (next oneTarget (.init [1]) (.open default)).file.content = [1] := by rw [hnext]; rfl
  refine ⟨fun h => ?_, fun h => ?_⟩
  · have hbounds := (acts_iff oneTarget happending _).1 (h.2 _ hstep).1 hhandle
    simp only [hcontent] at hbounds
    exact absurd hbounds (by decide)
  · have hbounds := (acts_iff oneTarget happending _).1 (h.2 _ hstep).1 hhandle
    simp only [hcontent] at hbounds
    exact absurd hbounds (by decide)

end NodeFuse.NodeFsData
