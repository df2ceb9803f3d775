import NodeFuse.NodeFsFiles
import NodeFuse.Proofs.NodeFsData

/-!
# When the files behind NodeFS are byte arrays

The descriptors in use have different numbers, so a handle leads to the file it was given for
(`find_of_handle`), and a request touches no file but its own. What `NodeFsData` has for one file then
holds of each of them: after a run its bytes are what its own requests make of them
(`files_are_arrays_iff`).
-/

namespace NodeFuse.NodeFsFiles

open NodeFs
open NodeFsData (pwrite pread handleIn Offset after answer served_open served_read_content
  served_write sent_read_iff)
open Reply (succeed)
open ReplyMethods Runs Splice Throwing

/-- Where neither way to open the file succeeds, `open` throws. -/
theorem served_open_of_none {W : Type} (V : Platform) {H : Host W} {tree : Tree} {inode : ℤ}
    {path : JsString} {w : W} {fi : FuseFileInfo} (hpath : tree inode = some path)
    (hopen : ∀ flags, H.openSync path flags none w = (none, w)) :
    final (NodeFs.open V H succeed inode fi) ⟨tree, w, .new⟩ = ⟨tree, w, .new⟩ := by
  refine wp_final (P := fun s' : Served W => s' = _) |>.1 ?_
  unfold NodeFs.open
  simp only [wp_bind, wp_pathAt, hpath, wp_ofOption, wp_orElse, wp_sync, hopen, reduceCtorEq,
    false_imp_iff, Option.some.injEq, forall_eq', implies_true, and_self]

section Files

variable {N : Descriptors} {f : Files} {path : JsString}

theorem bytes_update (content : JsString → Option (List UInt8)) (opened : List (ℕ × JsString × String))
    (bytes : List UInt8) :
    Files.bytes ⟨Function.update content path (some bytes), opened⟩
      = Function.update (Files.bytes ⟨content, opened⟩) path bytes :=
  Function.comp_update (fun c : Option (List UInt8) => c.getD []) content path (some bytes)

theorem isSome_update {content : JsString → Option (List UInt8)} {p : JsString}
    (h : p ≠ path → (content p).isSome) (bytes : List UInt8) :
    (Function.update content path (some bytes) p).isSome := by
  by_cases hp : p = path
  · rw [hp, Function.update_self]
    rfl
  · rw [Function.update_of_ne hp]
    exact h hp

theorem openedContent_append (f : Files) (path : JsString) :
    openedContent "a+" (f.content path) = some (f.bytes path) := by
  unfold Files.bytes
  rcases f.content path with _ | content
  · rfl
  · rfl

theorem open_append {fd : ℕ} (h : N.number f.opened.length = some fd) (path : JsString) :
    f.open N path "a+" = (some (.fin (fd : ℤ)),
      ⟨Function.update f.content path (some (f.bytes path)), (fd, path, "a+") :: f.opened⟩) := by
  unfold Files.open
  rw [h, openedContent_append]

theorem open_of_none (h : N.number f.opened.length = none) (path : JsString) (flags : String) :
    f.open N path flags = (none, f) := by
  unfold Files.open
  rw [h]

theorem write_of_find {fd : Value} (h : f.find fd = some (path, "a+")) (bytes : List UInt8)
    (offset : ℤ) : (host N).writeSync fd bytes offset f = (some (bytes.length : ℤ),
      { f with content := Function.update f.content path (some (f.bytes path ++ bytes)) }) := by
  have hwrite : f.write fd bytes offset
      = some { f with content := Function.update f.content path (some (f.bytes path ++ bytes)) } := by
    unfold Files.write
    rw [h]
    rfl
  simp only [host, hwrite]

theorem read_of_find {fd : Value} {flags : String} (h : f.find fd = some (path, flags)) (size : ℕ)
    (offset : ℤ) : (host N).read fd size offset f = some (pread (f.bytes path) size offset) := by
  simp only [host, h]

end Files

/-- Every handle is a descriptor of its file, which is there, and the descriptors have the numbers that
were given so far. -/
structure Tracked (T : Target) (s : State) : Prop where
  small : ∀ h ∈ s.handles, h.1.toNat < 2 ^ 31
  found : ∀ h ∈ s.handles, s.files.opened.lookup h.1.toNat = some (h.2, "a+")
  there : ∀ h ∈ s.handles, (s.files.content h.2).isSome
  number : ∀ x ∈ s.files.opened, ∃ i < s.files.opened.length, T.descriptors.number i = some x.1

theorem tracked_init (T : Target) (content : JsString → Option (List UInt8)) :
    Tracked T (.init content) :=
  ⟨by simp [State.init], by simp [State.init], by simp [State.init], by simp [State.init]⟩

theorem mem_handlesOf {s : State} {path : JsString} {fh : UInt64} :
    fh ∈ s.handlesOf path ↔ (fh, path) ∈ s.handles := by
  simp [State.handlesOf]

section Requests

variable (T : Target) {s : State} {inode : UInt64} {path : JsString}

theorem find_of_handle (h : Tracked T s) {fi : FuseFileInfo} (hfh : (fi.fh, path) ∈ s.handles) :
    s.files.find (FileInfo.getFileHandle fi) = some (path, "a+") := by
  have hsmall := h.small _ hfh
  have hfound := h.found _ hfh
  have hint : Integer.new fi.fh.toNat = fi.fh.toNat := Integer.new_eq_iff.2 (by
    simp only at hsmall
    omega)
  unfold FileInfo.getFileHandle Files.find
  rw [hint]
  simpa [Value.int] using hfound

/-- What an `open` that gets a descriptor leaves. -/
theorem next_open {fd : ℕ} (hfd : T.descriptors.number s.files.opened.length = some fd)
    (hpath : T.tree (Number.new inode.toNat) = some path) (fi : FuseFileInfo) :
    ∃ fh : UInt64, fh.toNat = fd ∧ next T s ⟨inode, .open fi⟩
      = ⟨⟨Function.update s.files.content path (some (s.files.bytes path)),
        (fd, path, "a+") :: s.files.opened⟩, s.handles ++ [(fh, path)]⟩ := by
  have hlt := T.descriptors.number_lt _ fd hfd
  have hserved : served T s ⟨inode, .open fi⟩ = Served.replied
      ⟨T.tree, ⟨Function.update s.files.content path (some (s.files.bytes path)),
        (fd, path, "a+") :: s.files.opened⟩, .new⟩
      (.open { fi with fh := (T.platform.integerValue (.int fd)).toUInt64 }) :=
    served_open T.platform hpath (open_append hfd path) (by simp)
  have hfh := FileInfo.toNat_of_integerValue T.platform.toRuntime (Int.natCast_nonneg fd) (by omega)
  refine ⟨_, Int.natCast_inj.1 hfh, ?_⟩
  have hfile : T.file ⟨inode, .open fi⟩ = some path := hpath
  unfold next
  rw [hserved, hfile]
  rfl

theorem next_open_of_none (hfd : T.descriptors.number s.files.opened.length = none)
    (hpath : T.tree (Number.new inode.toNat) = some path) (fi : FuseFileInfo) :
    next T s ⟨inode, .open fi⟩ = s := by
  have hserved : served T s ⟨inode, .open fi⟩ = ⟨T.tree, s.files, .new⟩ :=
    served_open_of_none T.platform hpath fun flags => open_of_none hfd path flags
  unfold next
  rw [hserved]
  exact congrArg (State.mk _) (List.append_nil _)

theorem next_write (h : Tracked T s) (hpath : T.tree (Number.new inode.toNat) = some path)
    {fi : FuseFileInfo} (hfh : (fi.fh, path) ∈ s.handles) (bytes : List UInt8) (offset : Offset) :
    next T s ⟨inode, .write fi bytes offset⟩
      = ⟨{ s.files with
          content := Function.update s.files.content path (some (s.files.bytes path ++ bytes)) },
        s.handles⟩ := by
  obtain ⟨content, hcontent⟩ := Option.isSome_iff_exists.1 (h.there _ hfh)
  have hserved : served T s ⟨inode, .write fi bytes offset⟩ = Served.replied
      ⟨T.tree, { s.files with
        content := Function.update s.files.content path (some (s.files.bytes path ++ bytes)) }, .new⟩
      (.write (T.platform.integerValue (.int bytes.length)).toUInt64) :=
    served_write T.platform hpath hcontent (write_of_find (find_of_handle T h hfh) bytes _)
  unfold next
  rw [hserved]
  exact congrArg (State.mk _) (List.append_nil _)

theorem served_read_handle (fi : FuseFileInfo) (size : UInt64) (offset : Offset) :
    served T s ⟨inode, .read fi size offset⟩
      = final (NodeFs.read T.platform (host T.descriptors) succeed (Integer.new size.toNat)
          (Integer.new offset.1) fi) ⟨T.tree, s.files, .new⟩ := rfl

theorem next_read (h : Tracked T s) {fi : FuseFileInfo} (hfh : (fi.fh, path) ∈ s.handles)
    (size : UInt64) (offset : Offset) : next T s ⟨inode, .read fi size offset⟩ = s := by
  unfold next
  rw [served_read_handle, served_read_content T.platform size offset fun _ _ =>
    read_of_find (find_of_handle T h hfh) _ _]
  split_ifs
  · exact congrArg (State.mk _) (List.append_nil _)
  · exact congrArg (State.mk _) (List.append_nil _)

theorem answered_iff (h : Tracked T s) {fi : FuseFileInfo} (hfh : (fi.fh, path) ∈ s.handles)
    (size : UInt64) (offset : Offset) :
    (served T s ⟨inode, .read fi size offset⟩).reply.sent
        = [.buf (slice (s.files.bytes path) offset.1 size.toNat)]
      ↔ Integer.new size.toNat = (min size.toNat ((s.files.bytes path).length - offset.1) : ℕ) := by
  rw [served_read_handle]
  exact sent_read_iff T.platform size offset fun _ _ =>
    read_of_find (find_of_handle T h hfh) _ _

end Requests

section Run

variable {T : Target}

theorem lookup_new {opened : List (ℕ × JsString × String)} {fd n : ℕ} {x : JsString × String}
    (hne : n ≠ fd) : List.lookup n ((fd, x) :: opened) = opened.lookup n := by
  rw [List.lookup_cons]
  split
  · rename_i heq
    exact absurd (beq_iff_eq.1 heq) hne
  · rfl

theorem tracked_step (s : State) (e : Event) (s' : State) (h : Tracked T s)
    (hs : step T s e = some s') : Tracked T s' := by
  obtain ⟨hpossible, hs⟩ := Option.ite_none_right_eq_some.1 hs
  obtain rfl := Option.some.inj hs
  obtain ⟨inode, request⟩ := e
  obtain ⟨path, hpath, hrequest⟩ := hpossible
  cases request with
  | «open» fi =>
    rcases hfd : T.descriptors.number s.files.opened.length with _ | fd
    · rw [next_open_of_none T hfd hpath]
      exact h
    · obtain ⟨fh, hfh, hnext⟩ := next_open T hfd hpath fi
      have hlt := T.descriptors.number_lt _ fd hfd
      rw [hnext]
      refine ⟨fun x hx => ?_, fun x hx => ?_, fun x hx => ?_, fun x hx => ?_⟩
      · rcases List.mem_append.1 hx with hx | hx
        · exact h.small x hx
        · rw [List.mem_singleton.1 hx]
          exact hfh ▸ hlt
      · rcases List.mem_append.1 hx with hx | hx
        · -- the number is new, so no handle given before has it
          have hfound := h.found x hx
          have hne : x.1.toNat ≠ fd := by
            rintro rfl
            obtain ⟨_, _, hopened, -⟩ := List.lookup_eq_some_iff.1 hfound
            obtain ⟨i, hi, hnumber⟩ := h.number _ (hopened ▸ List.mem_append_right _ List.mem_cons_self)
            exact absurd (T.descriptors.number_inj i _ _ hnumber hfd) hi.ne
          exact (lookup_new hne).trans hfound
        · rw [List.mem_singleton.1 hx, hfh]
          exact List.lookup_cons_self
      · rcases List.mem_append.1 hx with hx | hx
        · exact isSome_update (fun _ => h.there x hx) _
        · rw [List.mem_singleton.1 hx]
          exact isSome_update (fun hne => absurd rfl hne) _
      · rcases List.mem_cons.1 hx with hx | hx
        · rw [hx]
          exact ⟨_, Nat.lt_succ_self _, hfd⟩
        · obtain ⟨i, hi, hnumber⟩ := h.number x hx
          exact ⟨i, Nat.lt_succ_of_lt hi, hnumber⟩
  | write fi bytes offset =>
    rw [next_write T h hpath (mem_handlesOf.1 hrequest)]
    exact ⟨h.small, h.found, fun x hx => isSome_update (fun _ => h.there x hx) _, h.number⟩
  | read fi size offset =>
    rw [next_read T h (mem_handlesOf.1 hrequest)]
    exact h

theorem acts_iff {s : State} (h : Tracked T s) (e : Event) : ActsOnItsFile T s e ↔ InBounds T s e := by
  by_cases hpossible : Possible T s e
  · have hstep : step T s e = some (next T s e) := if_pos hpossible
    obtain ⟨inode, request⟩ := e
    obtain ⟨path, hpath, hrequest⟩ := id hpossible
    have hfile : T.file ⟨inode, request⟩ = some path := hpath
    have hacts : ActsOnItsFile T s ⟨inode, request⟩
        ↔ (next T s ⟨inode, request⟩).files.bytes = Function.update s.files.bytes path
            (after (s.files.bytes path) request)
          ∧ ∀ bytes ∈ answer (s.files.bytes path) request,
            (served T s ⟨inode, request⟩).reply.sent = [.buf bytes] := by
      unfold ActsOnItsFile
      rw [hstep, hfile]
      simp
    rw [hacts]
    unfold InBounds
    rw [forall_prop_of_true hpossible, hfile]
    cases request with
    | «open» fi =>
      have hsame : (next T s ⟨inode, .open fi⟩).files.bytes = s.files.bytes := by
        rcases hfd : T.descriptors.number s.files.opened.length with _ | fd
        · rw [next_open_of_none T hfd hpath]
        · obtain ⟨fh, -, hnext⟩ := next_open T hfd hpath fi
          rw [hnext]
          exact (bytes_update _ _ _).trans (Function.update_eq_self path _)
      rw [hsame]
      simp [after, answer]
    | write fi bytes offset =>
      rw [next_write T h hpath (mem_handlesOf.1 hrequest), bytes_update]
      have hinj := Function.update_injective s.files.bytes path
      simp [after, answer, hinj.eq_iff, append_eq_splice_iff]
    | read fi size offset =>
      rw [next_read T h (mem_handlesOf.1 hrequest)]
      simp [after, answer, answered_iff T h (mem_handlesOf.1 hrequest)]
  · have hstep : step T s e = none := if_neg hpossible
    refine iff_of_true (fun s' hs' => ?_) fun h => absurd h hpossible
    rw [hstep] at hs'
    cases hs'

/-- A run whose requests act on their files leaves each file as its own requests make it. -/
theorem bytes_of_run (path : JsString) : ∀ {es : List Event} {s s' : State},
    Along (step T) (ActsOnItsFile T) s es → run (step T) s es = some s' →
      s'.files.bytes path = bytesAfter T path es (s.files.bytes path)
  | [], s, s', _, hr => by
    obtain rfl := Option.some.inj hr
    rfl
  | e :: es, s, s', hacts, hr => by
    obtain ⟨m, hm, hr⟩ := (run_cons _).1 hr
    obtain ⟨⟨file, hfile, -⟩, -⟩ := Option.ite_none_right_eq_some.1 hm
    have hbytes := (hacts.1 m hm file hfile).1
    rw [bytes_of_run path (hacts.2 m hm) hr, hbytes]
    unfold bytesAfter
    by_cases hpath : file = path
    · rw [List.filter_cons_of_pos (by simpa [hpath] using hfile), List.foldl_cons, hpath,
        Function.update_self]
    · have hne : ¬ T.file e = some path := fun heq => hpath (Option.some.inj (hfile.symm.trans heq))
      rw [List.filter_cons_of_neg (by simpa using hne), Function.update_of_ne (Ne.symm hpath)]

/-- Every request of a run acts on its file as on a byte array, and on no other, exactly when every
write is of nothing or at the end of its file and every read asks for as many bytes as there are; and
then the bytes of each file are what the requests for it alone make of them. -/
theorem files_are_arrays_iff (content : JsString → Option (List UInt8)) (es : List Event) :
    (Along (step T) (ActsOnItsFile T) (.init content) es
        ↔ Along (step T) (InBounds T) (.init content) es)
      ∧ (Along (step T) (InBounds T) (.init content) es →
        ∀ s', run (step T) (.init content) es = some s' → ∀ path,
          s'.files.bytes path = bytesAfter T path es ((content path).getD [])) := by
  have hiff : Along (step T) (ActsOnItsFile T) (.init content) es
      ↔ Along (step T) (InBounds T) (.init content) es :=
    along_congr tracked_step (fun _ e h => acts_iff h e) es (tracked_init T content)
  exact ⟨hiff, fun hbounds s' hr path => bytes_of_run path (hiff.2 hbounds) hr⟩

end Run

/-- Two files, and descriptors from 3 to 1023. -/
def twoFiles : Target where
  platform := .amd64
  format := .linux
  descriptors := {
    number := fun n => if n ≤ 1020 then some (n + 3) else none
    number_lt := fun n fd h => by
      obtain ⟨hn, hfd⟩ := Option.ite_none_right_eq_some.1 h
      have heq := Option.some.inj hfd
      omega
    number_inj := fun m n fd hm hn => by
      obtain ⟨-, hm⟩ := Option.ite_none_right_eq_some.1 hm
      obtain ⟨-, hn⟩ := Option.ite_none_right_eq_some.1 hn
      have heq := Option.some.inj (hm.trans hn.symm)
      omega }
  tree := Function.update (Function.update rootTree 2 (some "/tmp/a".toList)) 4
    (some "/tmp/b".toList)

/-- The requests for the one file leave the bytes of the other. -/
theorem other_file_left : ∃ s', run (step twoFiles) (.init fun _ => some [1])
      [⟨2, .open default⟩, ⟨4, .open default⟩,
        ⟨2, .write { (default : FuseFileInfo) with fh := 3 } [2] ⟨1, by decide⟩⟩] = some s'
    ∧ s'.files.bytes "/tmp/a".toList = [1, 2] ∧ s'.files.bytes "/tmp/b".toList = [1] := by
  have hbounds : Along (step twoFiles) (InBounds twoFiles) (.init fun _ => some [1])
      [⟨2, .open default⟩, ⟨4, .open default⟩,
        ⟨2, .write { (default : FuseFileInfo) with fh := 3 } [2] ⟨1, by decide⟩⟩] := by
    refine ⟨fun _ _ _ => trivial, fun s hs => ⟨fun _ _ _ => trivial, fun s' hs' =>
      ⟨fun _ path hpath => .inr ?_, fun _ _ => trivial⟩⟩⟩
    obtain rfl := Option.some.inj hs
    obtain rfl := Option.some.inj hs'
    obtain rfl := Option.some.inj hpath
    rfl
  have hbytes := (files_are_arrays_iff (T := twoFiles) _ _).2 hbounds _ rfl
  exact ⟨_, rfl, hbytes "/tmp/a".toList, hbytes "/tmp/b".toList⟩

end NodeFuse.NodeFsFiles
