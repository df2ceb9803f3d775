import NodeFuse.Confinement
import NodeFuse.Proofs.NodeFsRuns

/-!
# NodeFS stays below /tmp

`path.join` follows a name from where its path leads (`leads_join`), so from a path below `test_path` only
`..` leads out, and only from `test_path` itself. As long as the kernel sends plain names and does not list
that directory, what is outside makes no difference to NodeFS (`confined`).
-/

namespace NodeFuse

namespace Path

theorem parts_append_slash (path rest : JsString) :
    parts (path ++ '/' :: rest) = parts path ++ parts rest := by
  unfold parts
  rw [List.splitOn_append_cons_self, List.filter_append]

theorem parts_cons_slash (rest : JsString) : parts ('/' :: rest) = parts rest :=
  parts_append_slash [] rest

theorem parts_of_no_slash {name : JsString} (hne : name ≠ []) (h : '/' ∉ name) :
    parts name = [name] := by
  unfold parts
  rw [List.splitOn_eq_singleton h]
  simp [hne]

theorem parts_intercalate {l : List JsString} (h : ∀ part ∈ l, part ≠ [] ∧ '/' ∉ part) :
    parts (['/'].intercalate l) = l := by
  unfold parts
  rcases l with _ | ⟨part, l⟩
  · rfl
  · rw [List.splitOn_intercalate '/' (fun part hpart => (h part hpart).2) (List.cons_ne_nil _ _)]
    exact List.filter_eq_self.2 fun part hpart => decide_eq_true (h part hpart).1

/-- Where nothing is `.` or `..`, working off `up` steps takes the last parts away. -/
theorem foldr_of_plain (kept : List JsString) : ∀ (l : List JsString) (up : ℕ),
    (∀ part ∈ l, Plain part) →
      l.foldr (fun last (kept, up) =>
          if last = ['.'] then (kept, up)
          else if last = ['.', '.'] then (kept, up + 1)
          else if up ≠ 0 then (kept, up - 1)
          else (last :: kept, up)) (kept, up)
        = (l.take (l.length - up) ++ kept, up - l.length)
  | [], up, _ => by simp
  | part :: l, up, h => by
    have hpart := h part List.mem_cons_self
    have ih := foldr_of_plain kept l up fun p hp => h p (List.mem_cons_of_mem _ hp)
    rw [List.foldr_cons, ih]
    simp only [hpart.ne_dot, hpart.ne_dotdot, if_false, List.length_cons]
    by_cases hup : up - l.length = 0
    · have htake : l.length + 1 - up = l.length - up + 1 := by omega
      simp [hup, htake]
      omega
    · have htake : l.length - up = 0 := by omega
      have htake' : l.length + 1 - up = 0 := by omega
      simp [hup, htake, htake']
      omega

theorem normalizeArray_concat {l : List JsString} (h : ∀ part ∈ l, Plain part) (name : JsString) :
    normalizeArray (l ++ [name]) false = if name = ['.'] then l
      else if name = ['.', '.'] then l.dropLast else l ++ [name] := by
  have hfold := fun kept => foldr_of_plain kept l
  unfold normalizeArray
  rw [List.foldr_append]
  by_cases hdot : name = ['.']
  · subst hdot
    simp only [List.foldr_cons, List.foldr_nil, if_true, Bool.false_eq_true, if_false]
    rw [hfold [] 0 h]
    simp
  · by_cases hdotdot : name = ['.', '.']
    · subst hdotdot
      simp only [List.foldr_cons, List.foldr_nil, if_true, Bool.false_eq_true, if_false, hdot]
      rw [hfold [] 1 h, List.append_nil, List.dropLast_eq_take]
    · simp only [List.foldr_cons, List.foldr_nil, Bool.false_eq_true, if_false, hdot, hdotdot,
        ne_eq, not_true_eq_false]
      rw [hfold [name] 0 h]
      simp

theorem normalize_of_absolute {path : JsString} (h : path.head? = some '/') :
    (normalize path).head? = some '/'
      ∧ parts (normalize path) = parts (['/'].intercalate (normalizeArray (parts path) false)) := by
  have hslash : ∀ p : JsString, parts (p ++ ['/']) = parts p := fun p => by
    rw [parts_append_slash]
    exact List.append_nil _
  have hparts : (path.splitOn '/').filter (· ≠ []) = parts path := rfl
  unfold normalize
  simp only [h, not_true_eq_false, decide_false, and_false, if_false, if_true]
  rw [hparts]
  refine ⟨rfl, ?_⟩
  rw [parts_cons_slash]
  split_ifs
  · exact hslash _
  · rfl

/-- `path.join` goes on from where the path leads: it stays, goes up or goes to the entry. -/
theorem leads_join {path name : JsString} {p : AbsPath} (h : Leads path p) (hne : name ≠ [])
    (hslash : '/' ∉ name) : (join path name).head? = some '/'
      ∧ parts (join path name) = if name = ['.'] then p.parts
        else if name = ['.', '.'] then p.parts.dropLast else p.parts ++ [name] := by
  have hpath : path ≠ [] := fun hnil => by
    have := h.absolute
    rw [hnil] at this
    cases this
  have hjoined : ['/'].intercalate ([path, name].filter (· ≠ [])) = path ++ '/' :: name := by
    simp [hpath, hne, List.intercalate]
  have habsolute : (path ++ '/' :: name).head? = some '/' := by
    rw [List.head?_append, h.absolute]
    rfl
  obtain ⟨hhead, hparts⟩ := normalize_of_absolute habsolute
  have hplain : ∀ part ∈ p.parts, part ≠ [] ∧ '/' ∉ part := fun part hpart =>
    ⟨(p.plain part hpart).ne_nil, (p.plain part hpart).no_slash⟩
  have hall : parts (path ++ '/' :: name) = p.parts ++ [name] := by
    rw [parts_append_slash, h.parts, parts_of_no_slash hne hslash]
  unfold join
  rw [hjoined, hparts, hall, normalizeArray_concat p.plain]
  refine ⟨hhead, ?_⟩
  split_ifs
  · exact parts_intercalate hplain
  · exact parts_intercalate fun part hpart => hplain part (List.dropLast_subset _ hpart)
  · refine parts_intercalate fun part hpart => ?_
    rcases List.mem_append.1 hpart with hpart | hpart
    · exact hplain part hpart
    · rw [List.mem_singleton.1 hpart]
      exact ⟨hne, hslash⟩

theorem leads_join_dot {path : JsString} {p : AbsPath} (h : Leads path p) :
    Leads (join path ['.']) p := by
  have hname : (['.'] : JsString) ≠ [] ∧ '/' ∉ (['.'] : JsString) := by decide
  obtain ⟨hhead, hparts⟩ := leads_join h hname.1 hname.2
  exact ⟨hhead, hparts⟩

theorem leads_join_dotdot {path : JsString} {p : AbsPath} (h : Leads path p) :
    Leads (join path ['.', '.']) p.parent := by
  have hname : (['.', '.'] : JsString) ≠ [] ∧ '/' ∉ (['.', '.'] : JsString) := by decide
  obtain ⟨hhead, hparts⟩ := leads_join h hname.1 hname.2
  exact ⟨hhead, hparts⟩

theorem leads_join_name {path name : JsString} {p : AbsPath} (h : Leads path p)
    (hname : Plain name) : Leads (join path name) (p.child name hname) := by
  obtain ⟨hhead, hparts⟩ := leads_join h hname.ne_nil hname.no_slash
  rw [if_neg hname.ne_dot, if_neg hname.ne_dotdot] at hparts
  exact ⟨hhead, hparts⟩

end Path

namespace NodeFs

open HashTable (Op applyAll)
open Runs Throwing ReplyMethods

theorem inside_join {dir name : JsString} (h : Inside dir) (hname : Plain name) :
    Inside (Path.join dir name) := by
  obtain ⟨p, hleads, hprefix⟩ := h
  exact ⟨_, Path.leads_join_name hleads hname, hprefix.trans (List.prefix_append _ _)⟩

/-- Entries are below, but for `..` of the served directory itself. -/
theorem inside_entry {dir name : JsString} (h : Inside dir) (hne : name ≠ [])
    (hslash : '/' ∉ name) (htop : Path.parts dir ≠ [tmp]) : Inside (Path.join dir name) := by
  obtain ⟨p, hleads, hprefix⟩ := h
  by_cases hdot : name = ['.']
  · rw [hdot]
    exact ⟨p, Path.leads_join_dot hleads, hprefix⟩
  · by_cases hdotdot : name = ['.', '.']
    · rw [hdotdot]
      refine ⟨_, Path.leads_join_dotdot hleads, ?_⟩
      rw [hleads.parts] at htop
      obtain ⟨rest, hrest⟩ := hprefix
      rcases rest with _ | ⟨part, rest⟩
      · exact absurd (by rw [← hrest, List.append_nil]) htop
      · have hparent : p.parent.parts = tmp :: (part :: rest).dropLast := by
          show p.parts.dropLast = _
          rw [← hrest]
          rfl
        rw [hparent]
        exact List.prefix_append [tmp] _
    · exact ⟨_, Path.leads_join_name hleads ⟨hne, hslash, hdot, hdotdot⟩,
        hprefix.trans (List.prefix_append _ _)⟩

theorem no_slash_of_entryName {name : JsString} (h : EntryName name.utf8) :
    name ≠ [] ∧ '/' ∉ name := by
  refine ⟨fun hnil => h.ne_nil (by rw [hnil]; rfl), fun hmem => h.no_slash ?_⟩
  exact List.mem_flatMap.2 ⟨'/', hmem, by decide⟩

/-! ## The table -/

section Confined

variable {W : Type} {H H' : Host W} {s : State W}

theorem inside_joined (hundefined : ∀ name, H.joinUndefined name = none) (hs : Confined s)
    {parent : ℤ} {name path : JsString} (hname : Plain name)
    (h : join H (s.tree parent) name = some path) : Inside path := by
  unfold join at h
  rcases htree : s.tree parent with _ | dir
  · rw [htree, hundefined] at h
    cases h
  · rw [htree, Option.some.injEq] at h
    rw [← h]
    exact inside_join (hs parent dir htree) hname

theorem inside_entryPaths (hs : Confined s) {inode size offset : ℤ} {rc : ℕ → ℤ}
    {fspath : JsString} {names : List JsString}
    (hdir : directory H inode s = some (fspath, names))
    (hend : ¬ ((entries names).length : ℤ) ≤ offset + 1)
    (htop : ¬ ListsTop H s ⟨.readdir inode size offset, rc⟩) :
    ∀ name ∈ entries names, Inside (Path.join fspath name) := by
  intro name hname
  obtain ⟨hne, hslash⟩ := no_slash_of_entryName (entries_valid (of_directory hdir) name hname)
  have htree : s.tree inode = some fspath := by
    unfold directory at hdir
    simp only [Option.bind_eq_some_iff, Option.map_eq_some_iff, Prod.mk.injEq] at hdir
    obtain ⟨_, hpath, _, -, rfl, -⟩ := hdir
    exact hpath
  exact inside_entry (hs inode fspath htree) hne hslash fun hparts =>
    htop ⟨fspath, names, hdir, hend, hparts⟩

/-- What is stored is what is joined to a name the call brings along. -/
theorem inside_stored (hundefined : ∀ name, H.joinUndefined name = none) (hs : Confined s)
    {call : Call} {rc : ℕ → ℤ} (hnames : ∀ name ∈ names call, Plain name) {path : JsString}
    (h : stored H s rc call = some path) : Inside path := by
  have hjoin := fun {parent : ℤ} {name : JsString} (hname : name ∈ names call)
      (h : join H (s.tree parent) name = some path) =>
    inside_joined hundefined hs (hnames name hname) h
  cases call with
  | lookup parent name =>
    simp only [stored, Option.bind_eq_bind, Option.bind_eq_some_iff, Option.pure_def,
      Option.some.injEq] at h
    obtain ⟨fspath, hpath, _, _, _, _, rfl⟩ := h
    exact hjoin (by simp [names]) hpath
  | mkdir parent name | symlink parent target name =>
    simp only [stored, made, Option.bind_eq_bind, Option.bind_eq_some_iff, Option.pure_def,
      Option.some.injEq] at h
    obtain ⟨fspath, hpath, _, _, _, _, _, _, rfl⟩ := h
    exact hjoin (by simp [names]) hpath
  | link inode newParent newName =>
    simp only [stored, made, Option.bind_eq_bind, Option.bind_eq_some_iff, Option.pure_def,
      Option.some.injEq] at h
    obtain ⟨dstPath, hpath, _, _, _, _, _, _, _, _, rfl⟩ := h
    exact hjoin (by simp [names]) hpath
  | rename parent name newParent newName =>
    simp only [stored, Option.bind_eq_bind, Option.bind_eq_some_iff, Option.pure_def,
      Option.some.injEq] at h
    obtain ⟨_, _, newPath, hpath, _, _, rfl⟩ := h
    exact hjoin (by simp [names]) hpath
  | create parent name mode fileInfo =>
    simp only [stored, Option.bind_eq_bind, Option.bind_eq_some_iff, Option.pure_def,
      Option.some.injEq] at h
    obtain ⟨fspath, hpath, _, _, _, _, _, _, rfl⟩ := h
    exact hjoin (by simp [names]) hpath
  | _ => cases h

theorem inside_writes (hundefined : ∀ name, H.joinUndefined name = none) (hs : Confined s)
    {e : Request} (hnames : ∀ name ∈ names e.call, Plain name) (htop : ¬ ListsTop H s e)
    {path : JsString} (h : Op.store path ∈ writes H s e) : Inside path := by
  obtain ⟨call, rc⟩ := e
  unfold writes at h
  cases call with
  | readdir inode size offset =>
    simp only [] at h
    rcases hdir : directory H inode s with _ | ⟨fspath, names⟩
    · rw [hdir] at h
      cases h
    · rw [hdir] at h
      simp only [] at h
      split_ifs at h with hend
      · cases h
      · obtain ⟨path', hpath', heq⟩ := List.mem_map.1 h
        obtain rfl := Op.store.inj heq
        obtain ⟨name, hname, rfl⟩ := List.mem_map.1 ((List.takeWhile_prefix _).subset hpath')
        exact inside_entryPaths hs hdir hend htop name hname
  | _ =>
    rcases List.mem_append.1 h with h | h
    · obtain ⟨path', hpath', heq⟩ := List.mem_map.1 h
      obtain rfl := Op.store.inj heq
      exact inside_stored hundefined hs hnames (Option.mem_toList.1 hpath')
    · obtain ⟨path', -, heq⟩ := List.mem_map.1 h
      cases heq

variable (V : Platform) (D : DirentFormat)

theorem confined_next (hundefined : ∀ name, H.joinUndefined name = none) (hs : Confined s)
    {e : Request} (hnames : ∀ name ∈ names e.call, Plain name) (htop : ¬ ListsTop H s e) :
    Confined (next V D H s e) := by
  unfold Confined
  rw [tree_next]
  exact HashTable.forall_applyAll _ hs fun _ hpath =>
    inside_writes hundefined hs hnames htop hpath

/-! ## Hosts that are the same below -/

theorem join_congr (h : SameInside H H') : join H = join H' := by
  funext dir name
  unfold join
  rcases dir with _ | dir
  · rw [(h.joinUndefined name).1, (h.joinUndefined name).2]
  · rfl

variable {V D} {rc : ℕ → ℤ} {t : Served W}

theorem pathAt_bind {inode : ℤ} {α : Type} (f : Option JsString → Handler W α) :
    (pathAt inode >>= f) t = f (t.tree inode) t := rfl

/-- The methods that begin with a path they join. -/
theorem joined_congr (h : SameInside H H') (hs : Confined s) (htree : t.tree = s.tree)
    {parent : ℤ} {name : JsString} (hname : Plain name) {f g : JsString → Handler W Unit}
    (hf : ∀ fspath, Inside fspath → f fspath t = g fspath t) :
    (pathAt parent >>= fun dir => ofOption (join H dir name) >>= f) t
      = (pathAt parent >>= fun dir => ofOption (join H' dir name) >>= g) t := by
  rw [pathAt_bind, pathAt_bind, join_congr h, htree]
  refine bind_congr_at rfl fun fspath t' ht' => ?_
  obtain ⟨hpath, rfl⟩ := Prod.mk.inj ht'
  exact hf fspath (inside_joined (fun n => (h.joinUndefined n).2) hs hname hpath)

/-- The methods that begin with a path of the table. -/
theorem found_congr (hs : Confined s) (htree : t.tree = s.tree) {inode : ℤ}
    {f g : JsString → Handler W Unit} (hf : ∀ fspath, Inside fspath → f fspath t = g fspath t) :
    (pathAt inode >>= fun path => ofOption path >>= f) t
      = (pathAt inode >>= fun path => ofOption path >>= g) t := by
  rw [pathAt_bind, pathAt_bind]
  refine bind_congr_at rfl fun fspath t' ht' => ?_
  obtain ⟨hpath, rfl⟩ := Prod.mk.inj ht'
  exact hf fspath (hs inode fspath (htree ▸ hpath))

theorem lookup_congr (h : SameInside H H') (hs : Confined s) (htree : t.tree = s.tree)
    (parent : ℤ) {name : JsString} (hname : Plain name) :
    lookup V H rc parent name t = lookup V H' rc parent name t := by
  unfold lookup
  refine joined_congr h hs htree hname fun fspath hin => ?_
  simp only [fun w => h.lstatSync w fspath hin]

theorem mkdir_congr (h : SameInside H H') (hs : Confined s) (htree : t.tree = s.tree)
    (parent : ℤ) {name : JsString} (hname : Plain name) (mode : ℤ) :
    mkdir V H rc parent name mode t = mkdir V H' rc parent name mode t := by
  unfold mkdir
  refine joined_congr h hs htree hname fun fspath hin => ?_
  simp only [h.mkdirSync fspath hin, fun w => h.statSync w fspath hin]

theorem unlink_congr (h : SameInside H H') (hs : Confined s) (htree : t.tree = s.tree)
    (parent : ℤ) {name : JsString} (hname : Plain name) :
    unlink V H rc parent name t = unlink V H' rc parent name t := by
  unfold unlink
  refine joined_congr h hs htree hname fun fspath hin => ?_
  simp only [h.unlinkSync fspath hin]

theorem rmdir_congr (h : SameInside H H') (hs : Confined s) (htree : t.tree = s.tree)
    (parent : ℤ) {name : JsString} (hname : Plain name) :
    rmdir V H rc parent name t = rmdir V H' rc parent name t := by
  unfold rmdir
  refine joined_congr h hs htree hname fun fspath hin => ?_
  simp only [h.rmdir fspath hin]

theorem symlink_congr (h : SameInside H H') (hs : Confined s) (htree : t.tree = s.tree)
    (parent : ℤ) (target : JsString) {name : JsString} (hname : Plain name) :
    symlink V H rc parent target name t = symlink V H' rc parent target name t := by
  unfold symlink
  refine joined_congr h hs htree hname fun fspath hin => ?_
  simp only [h.symlinkSync target fspath hin, fun w => h.lstatSync w fspath hin]

theorem create_congr (h : SameInside H H') (hs : Confined s) (htree : t.tree = s.tree)
    (parent : ℤ) {name : JsString} (hname : Plain name) (mode : ℤ) (fileInfo : FuseFileInfo) :
    create V H rc parent name mode fileInfo t = create V H' rc parent name mode fileInfo t := by
  unfold create
  refine joined_congr h hs htree hname fun fspath hin => ?_
  simp only [h.openSync fspath hin, fun w => h.statSync w fspath hin]

theorem rename_congr (h : SameInside H H') (hs : Confined s) (htree : t.tree = s.tree)
    (parent : ℤ) {name : JsString} (hname : Plain name) (newParent : ℤ) {newName : JsString}
    (hnewName : Plain newName) : rename V H rc parent name newParent newName t
      = rename V H' rc parent name newParent newName t := by
  unfold rename
  refine joined_congr h hs htree hname fun oldPath hold => ?_
  refine joined_congr h hs htree hnewName fun newPath hnew => ?_
  simp only [h.renameSync oldPath newPath hold hnew]

theorem link_congr (h : SameInside H H') (hs : Confined s) (htree : t.tree = s.tree)
    (inode newParent : ℤ) {newName : JsString} (hname : Plain newName) :
    link V H rc inode newParent newName t = link V H' rc inode newParent newName t := by
  unfold link
  rw [pathAt_bind, pathAt_bind]
  refine joined_congr h hs htree hname fun dstPath hdst => ?_
  refine bind_congr_at rfl fun src t' ht' => ?_
  obtain ⟨hsrc, rfl⟩ := Prod.mk.inj ht'
  have hin : Inside src := hs inode src (htree ▸ hsrc)
  simp only [h.linkSync src dstPath hin hdst, fun w => h.statSync w dstPath hdst]

theorem readlink_congr (h : SameInside H H') (hs : Confined s) (htree : t.tree = s.tree)
    (inode : ℤ) : readlink V H rc inode t = readlink V H' rc inode t := by
  unfold readlink
  refine found_congr hs htree fun fspath hin => ?_
  simp only [fun w => h.readlinkSync w fspath hin]

theorem getattr_congr (h : SameInside H H') (hs : Confined s) (htree : t.tree = s.tree)
    (inode : ℤ) : getattr V H rc inode t = getattr V H' rc inode t := by
  unfold getattr
  rw [pathAt_bind, pathAt_bind]
  rcases hpath : t.tree inode with _ | fspath
  · rfl
  · have hin : Inside fspath := hs inode fspath (htree ▸ hpath)
    simp only [Option.bind_some, fun w => h.lstatSync w fspath hin]

theorem setattr_congr (h : SameInside H H') (hs : Confined s) (htree : t.tree = s.tree)
    (inode : ℤ) (attrs : Value) : setattr V H rc inode attrs t = setattr V H' rc inode attrs t := by
  unfold setattr
  refine found_congr hs htree fun fspath hin => ?_
  simp only [h.chmodSync fspath hin, fun w => h.lstatSync w fspath hin]

theorem open_congr (h : SameInside H H') (hs : Confined s) (htree : t.tree = s.tree)
    (inode : ℤ) (fileInfo : FuseFileInfo) :
    NodeFs.open V H rc inode fileInfo t = NodeFs.open V H' rc inode fileInfo t := by
  unfold NodeFs.open
  refine found_congr hs htree fun fspath hin => ?_
  simp only [h.openSync fspath hin]

theorem write_congr (h : SameInside H H') (hs : Confined s) (htree : t.tree = s.tree)
    (inode : ℤ) (buffer : List UInt8) (offset : ℤ) (fileInfo : FuseFileInfo) :
    write V H rc inode buffer offset fileInfo t = write V H' rc inode buffer offset fileInfo t := by
  unfold write
  refine found_congr hs htree fun fspath hin => ?_
  simp only [fun w => h.readFileSync w fspath hin, h.writeSync]

theorem directory_congr (h : SameInside H H') (hs : Confined s) (inode : ℤ) :
    directory H inode s = directory H' inode s := by
  unfold directory
  rcases hpath : s.tree inode with _ | fspath
  · rfl
  · rw [Option.bind_some, Option.bind_some, h.readdirSync s.world fspath (hs inode fspath hpath)]

theorem readdirLoop_congr {fs fs' : Fs} (fspath : JsString) (size offset : ℤ) :
    ∀ (names : List JsString) (i : ℕ) (x : Tree × Reply),
      (∀ name ∈ names,
        fs.lstatSync (Path.join fspath name) = fs'.lstatSync (Path.join fspath name)) →
          readdirLoop V.toRuntime D fs rc fspath size offset i names x
            = readdirLoop V.toRuntime D fs' rc fspath size offset i names x
  | [], _, _, _ => rfl
  | name :: names, i, x, hnames => by
    have ih := fun x => readdirLoop_congr fspath size offset names (i + 1) x
      fun n hn => hnames n (List.mem_cons_of_mem _ hn)
    unfold readdirLoop
    rw [hnames name List.mem_cons_self]
    simp only [ih]

theorem readdir_congr (h : SameInside H H') (hs : Confined s) {inode size offset : ℤ}
    (htop : ¬ ListsTop H s ⟨.readdir inode size offset, rc⟩) :
    readdir V.toRuntime D (H.fs s.world) rc inode size offset s.tree
      = readdir V.toRuntime D (H'.fs s.world) rc inode size offset s.tree := by
  have hcongr := directory_congr h hs inode
  rcases hdir : directory H inode s with _ | ⟨fspath, names⟩
  · rw [hdir] at hcongr
    unfold directory at hdir hcongr
    unfold readdir
    rw [hdir, ← hcongr]
  · have hentries := fun hend => inside_entryPaths hs hdir hend htop
    rw [hdir] at hcongr
    unfold directory at hdir hcongr
    unfold readdir
    rw [hdir, ← hcongr]
    simp only []
    split_ifs with hend
    · rfl
    · exact readdirLoop_congr fspath size offset _ 0 _ fun name hname =>
        h.lstatSync s.world _ (hentries hend name hname)

/-- A request is served alike. -/
theorem serve_congr (h : SameInside H H') (hs : Confined s) {e : Request}
    (hnames : ∀ name ∈ names e.call, Plain name) (htop : ¬ ListsTop H s e) :
    serve V D H e.rc e.call s.tree s.world = serve V D H' e.rc e.call s.tree s.world := by
  obtain ⟨call, rc⟩ := e
  have hname := fun {name : JsString} (hmem : name ∈ names call) => hnames name hmem
  refine congrArg Prod.snd ?_
  cases call with
  | lookup parent name => exact lookup_congr h hs rfl parent (hname (by simp [names]))
  | mkdir parent name mode => exact mkdir_congr h hs rfl parent (hname (by simp [names])) mode
  | unlink parent name => exact unlink_congr h hs rfl parent (hname (by simp [names]))
  | rmdir parent name => exact rmdir_congr h hs rfl parent (hname (by simp [names]))
  | link inode newParent newName =>
    exact link_congr h hs rfl inode newParent (hname (by simp [names]))
  | symlink parent target name =>
    exact symlink_congr h hs rfl parent target (hname (by simp [names]))
  | readlink inode => exact readlink_congr h hs rfl inode
  | rename parent name newParent newName =>
    exact rename_congr h hs rfl parent (hname (by simp [names])) newParent
      (hname (by simp [names]))
  | readdir inode size offset =>
    have hread := readdir_congr (V := V) (D := D) h hs htop
    show (_, _) = (_, _)
    simp only [hread]
  | getattr inode => exact getattr_congr h hs rfl inode
  | setattr inode attrs => exact setattr_congr h hs rfl inode attrs
  | «open» inode fileInfo => exact open_congr h hs rfl inode fileInfo
  | read size offset fileInfo =>
    unfold handle read
    rw [h.read]
  | write inode buffer offset fileInfo => exact write_congr h hs rfl inode buffer offset fileInfo
  | create parent name mode fileInfo =>
    exact create_congr h hs rfl parent (hname (by simp [names])) mode fileInfo
  | _ => rfl

theorem inodesIn_congr (h : SameInside H H') (hs : Confined s) (call : Call) :
    inodesIn D H s call = inodesIn D H' s call := by
  have htarget : target H s call = target H' s call := by
    unfold target
    rw [join_congr h]
  funext msg
  unfold inodesIn
  rw [htarget]
  cases call with
  | readdir inode size offset => simp only [directory_congr h hs inode]
  | _ => rfl

theorem removed_congr (h : SameInside H H') (hs : Confined s) {call : Call}
    (hnames : ∀ name ∈ names call, Plain name) : removed H s call = removed H' s call := by
  have hin := fun {parent : ℤ} {name path : JsString} (hname : name ∈ names call)
      (hpath : join H' (s.tree parent) name = some path) =>
    inside_joined (fun n => (h.joinUndefined n).2) hs (hnames name hname) hpath
  unfold removed
  rw [join_congr h]
  cases call with
  | unlink parent name =>
    simp only []
    rcases hpath : join H' (s.tree parent) name with _ | path
    · rfl
    · simp only [Option.bind_eq_bind, Option.bind_some,
        h.unlinkSync path (hin (by simp [names]) hpath)]
  | rmdir parent name =>
    simp only []
    rcases hpath : join H' (s.tree parent) name with _ | path
    · rfl
    · simp only [Option.bind_eq_bind, Option.bind_some,
        h.rmdir path (hin (by simp [names]) hpath)]
  | rename parent name newParent newName =>
    simp only []
    rcases hold : join H' (s.tree parent) name with _ | old
    · rfl
    · rcases hnew : join H' (s.tree newParent) newName with _ | new
      · rfl
      · simp only [Option.bind_eq_bind, Option.bind_some,
          h.renameSync old new (hin (by simp [names]) hold) (hin (by simp [names]) hnew)]
  | _ => rfl

theorem next_congr (h : SameInside H H') (hs : Confined s) {e : Request}
    (hnames : ∀ name ∈ names e.call, Plain name) (htop : ¬ ListsTop H s e) :
    next V D H s e = next V D H' s e := by
  unfold next remaining
  rw [serve_congr h hs hnames htop, inodesIn_congr h hs, removed_congr h hs hnames]

end Confined

section Runs

variable {W : Type} (V : Platform) (D : DirentFormat)

theorem confined_init (w : W) : Confined (State.init w) := by
  intro key path h
  by_cases hkey : key = 1
  · have hroot : (State.init w).tree 1 = some rootPath := rfl
    rw [hkey, hroot, Option.some.injEq] at h
    rw [← h]
    exact ⟨⟨[tmp], by decide⟩, ⟨rfl, by decide⟩, List.prefix_refl _⟩
  · have hnone : (State.init w).tree key = none := by
      show rootTree key = none
      rw [rootTree, Function.update_of_ne hkey]
    rw [hnone] at h
    cases h

/-- Listing the served directory itself stores a path that is not below it. -/
theorem listing_leads_out {H : Host W} {s : State W} (hs : Confined s) {e : Request}
    (htop : ListsTop H s e) (hstats : ∀ path, (H.fs s.world).lstatSync path ≠ none) :
    ∃ path, Op.store path ∈ writes H s e ∧ ¬ Inside path := by
  obtain ⟨call, rc⟩ := e
  cases call with
  | readdir inode size offset =>
    obtain ⟨fspath, names, hdir, hend, hparts⟩ := htop
    have htree : s.tree inode = some fspath := by
      have hread := hdir
      unfold directory at hread
      simp only [Option.bind_eq_some_iff, Option.map_eq_some_iff, Prod.mk.injEq] at hread
      obtain ⟨_, hpath, _, -, rfl, -⟩ := hread
      exact hpath
    obtain ⟨p, hleads, -⟩ := hs inode fspath htree
    have hparent := Path.leads_join_dotdot hleads
    refine ⟨Path.join fspath ['.', '.'], ?_, ?_⟩
    · have hstat : ((H.fs s.world).lstatSync (Path.join fspath ['.', '.'])).isSome :=
        Option.isSome_iff_ne_none.2 (hstats _)
      have hentries : entryPaths fspath names
          = Path.join fspath ['.', '.'] :: ([['.']] ++ names).map (Path.join fspath) := rfl
      unfold writes
      simp only [hdir, if_neg hend]
      rw [hentries, List.takeWhile_cons_of_pos
        (p := fun path => ((H.fs s.world).lstatSync path).isSome) hstat]
      exact List.mem_map_of_mem List.mem_cons_self
    · rintro ⟨p', hleads', hprefix⟩
      have hnil : p'.parts = [] := by
        rw [← hleads'.parts, hparent.parts]
        show p.parts.dropLast = []
        rw [← hleads.parts, hparts]
        rfl
      rw [hnil] at hprefix
      exact absurd hprefix (by decide)
  | _ => cases htop

/-- `permissive` without a root directory. -/
def rootless : Host Unit := { permissive with
  fs := fun _ => { permissive.fs () with
    lstatSync := fun path => if path = ['/'] then none else some [] } }

theorem ne_root_of_inside {path : JsString} (h : Inside path) : path ≠ ['/'] := by
  obtain ⟨p, hleads, hprefix⟩ := h
  rintro rfl
  have hparts := hleads.parts
  rw [show Path.parts ['/'] = [] by decide] at hparts
  rw [← hparts] at hprefix
  exact absurd hprefix (by decide)

theorem sameInside_rootless : SameInside permissive rootless where
  lstatSync w path h := by
    show some [] = if path = ['/'] then none else some []
    rw [if_neg (ne_root_of_inside h)]
  readdirSync _ _ _ := rfl
  statSync _ _ _ := rfl
  readlinkSync _ _ _ := rfl
  readFileSync _ _ _ := rfl
  mkdirSync _ _ := rfl
  unlinkSync _ _ := rfl
  rmdir _ _ := rfl
  linkSync _ _ _ _ := rfl
  symlinkSync _ _ _ := rfl
  renameSync _ _ _ _ := rfl
  chmodSync _ _ := rfl
  openSync _ _ := rfl
  writeSync := rfl
  read := rfl
  joinUndefined _ := ⟨rfl, rfl⟩

end Runs

end NodeFs

end NodeFuse
