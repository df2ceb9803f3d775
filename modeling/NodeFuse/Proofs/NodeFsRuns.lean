import NodeFuse.Proofs.NodeFsHandlers

/-!
# What holds over the requests to NodeFS

The table is keyed by the hashes of its paths whatever fails (`table_keyed`), and inode numbers
identify paths as long as no two paths in use share a hash (`inodes_identify_iff`). A rename carries
nothing along (`renames_carry_iff`), and no failure on the host is reported (`failures_unreported`).
-/

namespace NodeFuse.NodeFs

open HashTable (Op applyAll lastAt Keyed keyed_applyAll applyAll_eq_some_iff lastAt_eq_none_iff
  hash_of_lastAt)
open Runs Throwing

variable {W : Type} (V : Platform) (D : DirentFormat) (H : Host W)

theorem tree_next (s : State W) (e : Request) :
    (next V D H s e).tree = applyAll hash s.tree (writes H s e) :=
  (does_serve V D H s e.rc e.call).tree

theorem given_next (s : State W) (e : Request) : (next V D H s e).given
    = s.given ++ (givenPaths V H s e).map fun path => ⟨path, hash path⟩ :=
  congrArg (s.given ++ ·) (does_serve V D H s e.rc e.call).given

theorem live_next (s : State W) (e : Request) : (next V D H s e).live
    = remaining H s e.call ++ (givenPaths V H s e).map fun path => ⟨path, hash path⟩ :=
  congrArg (remaining H s e.call ++ ·) (does_serve V D H s e.rc e.call).given

/-- A path that is given is stored. -/
theorem store_mem_writes {s : State W} {e : Request} {path : JsString}
    (h : path ∈ givenPaths V H s e) : .store path ∈ writes H s e := by
  obtain ⟨call, rc⟩ := e
  unfold givenPaths at h
  split_ifs at h with hrc
  · cases call with
    | readdir inode size offset =>
      simp only [] at h
      unfold writes
      rcases hdir : directory H inode s with _ | ⟨fspath, names⟩
      · rw [hdir] at h
        cases h
      · simp only [hdir] at h ⊢
        split_ifs at h with hnone
        · cases h
        · rw [not_or, not_or, not_exists] at hnone
          obtain ⟨hend, hall, -⟩ := hnone
          rw [if_neg hend]
          refine List.mem_map_of_mem ?_
          rwa [List.takeWhile_eq_self_iff.2]
          intro p hp
          exact Option.isSome_iff_ne_none.2 fun hno => hall p ⟨hp, hno⟩
    | rename => cases h
    | _ => exact List.mem_append_left _ (List.mem_map_of_mem h)
  · cases h

theorem hash_rootPath_ne_one : hash rootPath ≠ 1 := by decide

theorem keyed_rootTree : Keyed hash IsRoot rootTree := by
  intro key path h
  by_cases hkey : key = 1
  · rw [hkey, rootTree, Function.update_self, Option.some.injEq] at h
    exact .inr ⟨hkey, h.symm⟩
  · rw [rootTree, Function.update_of_ne hkey] at h
    cases h

theorem keyed_step {excused : ℤ → JsString → Prop} (s : State W) (e : Request) (s' : State W)
    (h : Keyed hash excused s.tree) (hs : step V D H s e = some s') :
    Keyed hash excused s'.tree := by
  obtain rfl := Option.some.inj hs
  rw [tree_next]
  exact keyed_applyAll _ h

/-- In every state every key is the hash of its path, but that 1 may hold the root, and in every state
after it no other entry has been replaced by one of another hash. -/
theorem table_keyed (w : W) (es : List Request) :
    Throughout (step V D H) (fun s => Keyed hash IsRoot s.tree ∧ ∀ fs : List Request,
      Throughout (step V D H) (fun s' => ReplacedAlike IsRoot s.tree s'.tree) s fs)
      (.init w) es := by
  refine throughout_of_inv (keyed_step V D H) (fun s hkeyed => ⟨hkeyed, fun fs => ?_⟩) es
    keyed_rootTree
  -- a later entry was there before, or is under its hash
  refine throughout_of_inv (keyed_step V D H) (fun s' hlater => ?_) fs
    fun key path h => Or.inr (show s.tree key = some path from h)
  intro key path path' hpath hpath'
  rcases hkeyed key path hpath with hhash | hroot
  · rcases hlater key path' hpath' with hhash' | hsame
    · exact .inr (hhash'.trans hhash.symm)
    · rw [hpath, Option.some.injEq] at hsame
      exact .inr (congrArg hash hsame.symm)
  · exact .inl hroot

/-- A host that has everything, and lets everything be done. -/
def permissive : Host Unit where
  fs _ := ⟨fun _ => some [], fun _ => some [], by simp⟩
  statSync _ _ := some []
  readlinkSync _ _ := some []
  readFileSync _ _ := some []
  mkdirSync _ _ w := (some .undefined, w)
  unlinkSync _ w := (some .undefined, w)
  rmdir _ w := (true, w)
  linkSync _ _ w := (some .undefined, w)
  symlinkSync _ _ w := (some .undefined, w)
  renameSync _ _ w := (some .undefined, w)
  chmodSync _ _ w := (some .undefined, w)
  openSync _ _ _ w := (some (.fin 3), w)
  writeSync _ bytes _ w := (some bytes.length, w)
  read _ _ _ _ := some []
  joinUndefined _ := none

/-- A lookup of a name in the root. -/
def lookUp (name : String) : Request := ⟨.lookup 1 name.toList, Reply.succeed⟩

section LookUp

variable {s : State Unit} (name : String) (h : s.tree 1 = some rootPath)

include h

theorem stored_lookUp : stored permissive s Reply.succeed (.lookup 1 name.toList)
    = some (Path.join rootPath name.toList) := by
  simp [stored, join, h, permissive, Reply.succeed]

theorem tree_lookUp : (next .amd64 .linux permissive s (lookUp name)).tree
    = Function.update s.tree (hash (Path.join rootPath name.toList))
      (some (Path.join rootPath name.toList)) := by
  have hwrites : writes permissive s (lookUp name)
      = [.store (Path.join rootPath name.toList)] := by
    simp [writes, lookUp, stored_lookUp name h, deleted]
  rw [tree_next, hwrites]
  rfl

theorem givenPaths_lookUp : givenPaths .amd64 permissive s (lookUp name)
    = [Path.join rootPath name.toList] := by
  simp [givenPaths, lookUp, stored_lookUp name h, Reply.succeed]

theorem live_lookUp : (next .amd64 .linux permissive s (lookUp name)).live
    = s.live ++ [⟨Path.join rootPath name.toList, hash (Path.join rootPath name.toList)⟩] := by
  have hremaining : remaining permissive s (lookUp name).call = s.live := by
    simp [remaining, lookUp, removed]
  rw [live_next, givenPaths_lookUp name h, hremaining]
  rfl

theorem knows_lookUp : (next .amd64 .linux permissive s (lookUp name)).Knows
    (hash (Path.join rootPath name.toList)) := by
  refine ⟨⟨Path.join rootPath name.toList, hash (Path.join rootPath name.toList)⟩, ?_, rfl⟩
  rw [given_next, givenPaths_lookUp name h]
  exact List.mem_append_right _ (List.mem_singleton_self _)

end LookUp

/-- A name in the root whose path hashes to 1 takes the place of the root. -/
theorem root_replaced : ¬ ∀ es : List Request,
    Throughout (step .amd64 .linux permissive) (fun s => Keyed hash IsRoot s.tree
      ∧ ∀ fs : List Request, Throughout (step .amd64 .linux permissive)
        (fun s' => ReplacedAlike (fun _ _ => False) s.tree s'.tree) s fs) (.init ()) es := by
  intro h
  have hlast := ((h []).2 [lookUp "qwsdxcj"]).2 _ rfl
  have htree := tree_lookUp (s := .init ()) "qwsdxcj" rfl
  have hhash : hash (Path.join rootPath "qwsdxcj".toList) = 1 := by decide
  rw [hhash] at htree
  have hafter : (next .amd64 .linux permissive (.init ()) (lookUp "qwsdxcj")).tree 1
      = some (Path.join rootPath "qwsdxcj".toList) := by rw [htree, Function.update_self]
  rcases hlast 1 _ _ (show rootTree 1 = some rootPath from rfl) hafter with hno | hsame
  · exact hno
  · exact hash_rootPath_ne_one (hsame.symm.trans hhash)

/-- An inode given is the hash of its path. -/
def Hashed (s : State W) : Prop := ∀ g ∈ s.live, g.inode = hash g.path

theorem hashed_next {s : State W} (h : Hashed s) (e : Request) : Hashed (next V D H s e) := by
  intro g hg
  rw [live_next, List.mem_append] at hg
  rcases hg with hg | hg
  · exact h g (List.mem_filter.1 hg).1
  · obtain ⟨path, -, rfl⟩ := List.mem_map.1 hg
    rfl

theorem mem_livePaths_iff {s : State W} {e : Request} {path : JsString} :
    path ∈ livePaths V H s e ↔ ∃ g ∈ (next V D H s e).live, g.path = path := by
  unfold livePaths
  rw [live_next]
  simp only [List.mem_append, List.mem_map]
  refine ⟨fun h => ?_, fun h => ?_⟩
  · rcases h with ⟨g, hg, rfl⟩ | hpath
    · exact ⟨g, .inl hg, rfl⟩
    · exact ⟨_, .inr ⟨path, hpath, rfl⟩, rfl⟩
  · obtain ⟨g, hg | ⟨p, hp, rfl⟩, rfl⟩ := h
    · exact .inl ⟨g, hg, rfl⟩
    · exact .inr hp

/-- An inode in use leads to its path after a request exactly when the request stores, last of all
under the hash of the path, the path itself. -/
theorem found_next_iff {s : State W} {e : Request} (hhashed : Hashed s) (hgood : Identifies s)
    {g : Given} (hg : g ∈ (next V D H s e).live) :
    (next V D H s e).tree g.inode = some g.path
      ↔ ∀ v, lastAt hash (hash g.path) (writes H s e) = some v → v = some g.path := by
  rw [hashed_next V D H hhashed e g hg, tree_next, applyAll_eq_some_iff]
  refine ⟨fun h => h.1, fun h => ⟨h, fun hnone => ?_⟩⟩
  rw [live_next, List.mem_append] at hg
  rcases hg with hg | hg
  · have hlive := (List.mem_filter.1 hg).1
    rw [← hhashed g hlive]
    exact hgood.found g hlive
  · -- what is given is stored
    obtain ⟨path, hpath, rfl⟩ := List.mem_map.1 hg
    have hother : hash path ≠ hash path :=
      lastAt_eq_none_iff.1 hnone (.store path) (store_mem_writes V H hpath)
    exact absurd rfl hother

theorem root_next_iff {s : State W} {e : Request} (h : s.tree 1 = some rootPath) :
    (next V D H s e).tree 1 = some rootPath ↔ ∀ op ∈ writes H s e, hash op.item ≠ 1 := by
  rw [tree_next, applyAll_eq_some_iff, ← lastAt_eq_none_iff]
  refine ⟨fun hroot => ?_, fun hnone => ⟨fun v hv => ?_, fun _ => h⟩⟩
  · rcases hlast : lastAt hash 1 (writes H s e) with _ | v
    · rfl
    · have hvalue := hroot.1 v hlast
      rw [hvalue] at hlast
      exact absurd (hash_of_lastAt hlast) hash_rootPath_ne_one
  · rw [hnone] at hv
    cases hv

theorem identifies_next_iff {s : State W} {e : Request} (hhashed : Hashed s)
    (hgood : Identifies s) : Identifies (next V D H s e) ↔ Unshared V H s e := by
  refine ⟨fun h => ⟨?_, ?_, ?_⟩, fun h => ?_⟩
  · exact (root_next_iff V D H hgood.root).1 h.root
  · intro path hpath hne
    have hgiven : (⟨path, hash path⟩ : Given) ∈ (next V D H s e).given := by
      rw [given_next]
      exact List.mem_append_right _ (List.mem_map_of_mem hpath)
    exact (h.proper _ hgiven hne).1
  · intro path hpath
    obtain ⟨g, hg, rfl⟩ := (mem_livePaths_iff V D H).1 hpath
    exact (found_next_iff V D H hhashed hgood hg).1 (h.found g hg)
  · have hfound : ∀ g ∈ (next V D H s e).live, (next V D H s e).tree g.inode = some g.path :=
      fun g hg => (found_next_iff V D H hhashed hgood hg).2
        (h.kept g.path ((mem_livePaths_iff V D H).2 ⟨g, hg, rfl⟩))
    refine ⟨(root_next_iff V D H hgood.root).2 h.root, fun g hg hne => ?_, hfound,
      fun g hg g' hg' hinode => ?_⟩
    · rw [given_next, List.mem_append] at hg
      rcases hg with hg | hg
      · exact hgood.proper g hg hne
      · obtain ⟨path, hpath, rfl⟩ := List.mem_map.1 hg
        have hone : hash path ≠ 1 := h.root (.store path) (store_mem_writes V H hpath)
        exact ⟨h.proper path hpath hne, hone⟩
    · have hpath := hfound g hg
      rw [hinode, hfound g' hg', Option.some.injEq] at hpath
      exact hpath.symm

theorem identifies_init (w : W) : Identifies (.init w : State W) :=
  ⟨rfl, by simp [State.init], by simp [State.init], by simp [State.init]⟩

/-- Inode numbers identify paths in every state of a run exactly when each request keeps the paths in
use apart: what it does last under the hash of one of them is to store that path, it stores and
deletes nothing under 1, and it gives no path but the root that hashes to 0. -/
theorem inodes_identify_iff (w : W) (es : List Request) :
    Throughout (step V D H) Identifies (.init w) es
      ↔ Along (step V D H) (Unshared V H) (.init w) es := by
  refine throughout_iff_along (I := Hashed) (fun s e hhashed => ?_) es (by simp [Hashed, State.init])
    (identifies_init w)
  exact ⟨_, rfl, hashed_next V D H hhashed e,
    fun hgood => identifies_next_iff V D H hhashed hgood⟩

/-- The paths of `Aa` and `BB` have one hash. -/
theorem names_clash : ¬ Throughout (step .amd64 .linux permissive) Identifies (.init ())
    [lookUp "Aa", lookUp "BB"] := by
  intro h
  have hlast := (h.2 _ rfl).2 _ rfl
  have hroot := (h.2 _ rfl).1.root
  have hlive : (⟨Path.join rootPath "Aa".toList, hash (Path.join rootPath "Aa".toList)⟩ : Given)
      ∈ (next .amd64 .linux permissive (next .amd64 .linux permissive (.init ()) (lookUp "Aa"))
        (lookUp "BB")).live := by
    rw [live_lookUp "BB" hroot, live_lookUp "Aa" rfl]
    exact List.mem_append_left _ (List.mem_append_right _ (List.mem_singleton_self _))
  have hclash : hash (Path.join rootPath "Aa".toList) = hash (Path.join rootPath "BB".toList) := by
    decide
  have hfound := hlast.found _ hlive
  rw [tree_lookUp "BB" hroot, hclash, Function.update_self, Option.some.injEq] at hfound
  exact absurd hfound (by decide)

theorem length_le_asDirectory (path : JsString) : path.length ≤ (asDirectory path).length := by
  unfold asDirectory
  split_ifs
  · exact le_rfl
  · rw [List.length_append]
    exact Nat.le_add_right _ _

/-- Only the path itself is moved to the new path. -/
theorem moved_new_iff {old new path : JsString} : Moved old new path new ↔ path = old := by
  refine ⟨fun h => ?_, fun h => .inl ⟨h, rfl⟩⟩
  rcases h with ⟨hpath, -⟩ | ⟨rest, hrest, -, hnew⟩
  · exact hpath
  · have hlen := congrArg List.length hnew
    have hle := length_le_asDirectory new
    have hpos := List.length_pos_iff.2 hrest
    rw [List.length_append] at hlen
    omega

section Rename

variable {s : State W} {e : Request} {old new : JsString} (h : renamed H s e = some (old, new))

include h in
theorem tree_renamed :
    (next V D H s e).tree = Function.update s.tree (hash new) (some new) := by
  obtain ⟨call, rc⟩ := e
  cases call with
  | rename parent name newParent newName =>
    simp only [renamed, Option.bind_eq_bind, Option.bind_eq_some_iff, Option.guard_eq_some',
      Option.pure_def, Option.some.injEq, Prod.mk.injEq] at h
    obtain ⟨_, hold, new', hnew, _, ⟨hresult, hrc⟩, rfl, rfl⟩ := h
    have hstored : stored H s rc (.rename parent name newParent newName) = some new' := by
      simp [stored, hold, hnew, hresult, hrc]
    have hwrites : writes H s ⟨.rename parent name newParent newName, rc⟩ = [.store new'] := by
      simp [writes, hstored, deleted]
    rw [tree_next, hwrites]
    rfl
  | _ => cases h

include h in
theorem carriedAlong_iff :
    CarriedAlong old new s (next V D H s e) ↔ NothingToCarry old new s := by
  have htree := tree_renamed V D H h
  have hnew : (next V D H s e).tree (hash new) = some new := by
    rw [htree, Function.update_self]
  have hother : ∀ inode, inode ≠ hash new → (next V D H s e).tree inode = s.tree inode :=
    fun inode hne => by rw [htree, Function.update_of_ne hne]
  refine ⟨fun hcarried => ⟨fun inode path hpath hknows hwithin => ?_, fun path hpath => ?_⟩,
    fun hnothing => ⟨fun inode path hpath hknows hwithin => ?_,
      fun inode path hpath hnot hwithin => ?_⟩⟩
  · obtain ⟨path', hmoved, hpath'⟩ := hcarried.moved inode path hpath hknows hwithin
    by_cases hinode : inode = hash new
    · rw [hinode, hnew, Option.some.injEq] at hpath'
      exact .inl ⟨hinode, moved_new_iff.1 (hpath' ▸ hmoved)⟩
    · rw [hother inode hinode, hpath, Option.some.injEq] at hpath'
      exact .inr ⟨hinode, hpath'.symm ▸ hmoved⟩
  · by_contra hneither
    rw [not_or] at hneither
    have hkept := hcarried.others (hash new) path hpath hneither.1 hneither.2
    rw [hnew, Option.some.injEq] at hkept
    exact hneither.2 (.inl hkept.symm)
  · rcases hnothing.moved inode path hpath hknows hwithin with ⟨hinode, hpath'⟩ | ⟨hinode, hmoved⟩
    · exact ⟨new, moved_new_iff.2 hpath', by rw [hinode, hnew]⟩
    · exact ⟨path, hmoved, by rw [hother inode hinode, hpath]⟩
  · by_cases hinode : inode = hash new
    · rw [hinode] at hpath hnot
      rcases hnothing.others path hpath with hmoved | hreplaced
      · exact absurd hmoved hnot
      · exact absurd hreplaced hwithin
    · rw [hother inode hinode, hpath]

end Rename

/-- Every rename of a run carries the inodes along exactly when none of them has anything to carry:
no inode the kernel knows leads to the path or below it, and no other path is under the hash of the
new one. -/
theorem renames_carry_iff (w : W) (es : List Request) :
    Along (step V D H) (Carries V D H) (.init w) es
      ↔ Along (step V D H) (NeedsNoCarrying H) (.init w) es := by
  refine along_congr (I := fun _ => True) (fun _ _ _ _ _ => trivial) (fun s e _ => ?_) es trivial
  unfold Carries NeedsNoCarrying
  exact forall₃_congr fun old new h => carriedAlong_iff V D H h

/-- The kernel knows the inode of `a`, which is renamed to `b`, and the inode leads to `a` still. -/
theorem renamed_file_lost : ¬ Along (step .amd64 .linux permissive)
    (Carries .amd64 .linux permissive) (.init ())
    [lookUp "a", ⟨.rename 1 "a".toList 1 "b".toList, Reply.succeed⟩] := by
  intro h
  have hinit : (State.init ()).tree 1 = some rootPath := rfl
  have hcarries := (h.2 _ rfl).1
  generalize hs : next .amd64 .linux permissive (.init ()) (lookUp "a") = s at hcarries
  have hold : s.tree (hash (Path.join rootPath "a".toList))
      = some (Path.join rootPath "a".toList) := by
    rw [← hs, tree_lookUp "a" hinit, Function.update_self]
  have hroot : s.tree 1 = some rootPath := by
    rw [← hs, tree_lookUp "a" hinit, Function.update_of_ne (by decide)]
    rfl
  have hknows : s.Knows (hash (Path.join rootPath "a".toList)) := by
    rw [← hs]
    exact knows_lookUp "a" hinit
  have hrenamed : renamed permissive s ⟨.rename 1 "a".toList 1 "b".toList, Reply.succeed⟩
      = some (Path.join rootPath "a".toList, Path.join rootPath "b".toList) := by
    simp [renamed, join, hroot, permissive, Reply.succeed]
  have hcarried := hcarries _ _ hrenamed
  rw [carriedAlong_iff _ _ _ hrenamed] at hcarried
  rcases hcarried.moved _ _ hold hknows (.inl rfl)
    with ⟨hhash, -⟩ | ⟨-, ⟨-, hpath⟩ | ⟨rest, -, hpath, -⟩⟩
  · exact absurd hhash (by decide)
  · exact absurd hpath (by decide)
  · have hprefix : asDirectory (Path.join rootPath "a".toList) <+: Path.join rootPath "a".toList :=
      ⟨rest, hpath.symm⟩
    exact absurd hprefix (by decide)

/-- Nothing is sent where the call on the host throws, and success where `fs.rmdir` fails. -/
theorem sent_of_fails {s : State W} {call : Call} (h : Fails H s call) (rc : ℕ → ℤ) :
    (serve V D H rc call s.tree s.world).reply.sent = []
      ∨ (serve V D H rc call s.tree s.world).reply.sent = [.err 0] := by
  have hsent : ∀ (x : Handler W Unit) (sent : List FuseReply),
      wp x (fun _ s' => s'.reply.sent = sent) (fun s' => s'.reply.sent = sent)
        ⟨s.tree, s.world, .new⟩ → (final x ⟨s.tree, s.world, .new⟩).reply.sent = sent :=
    fun x sent => wp_final.1
  cases call with
  | mkdir parent name mode =>
    obtain ⟨fspath, hpath, hthrows⟩ := h
    exact .inl (hsent (mkdir V H rc parent name mode) [] (by simp [mkdir, hpath, hthrows, Reply.new]))
  | unlink parent name =>
    obtain ⟨fspath, hpath, hthrows⟩ := h
    exact .inl (hsent (unlink V H rc parent name) [] (by simp [unlink, hpath, hthrows, Reply.new]))
  | rmdir parent name =>
    obtain ⟨fspath, hpath, -⟩ := h
    refine .inr (hsent (rmdir V H rc parent name) [.err 0] ?_)
    simp only [rmdir, wp_bind, wp_pathAt, wp_ofOption, wp_sync, hpath, Option.some.injEq,
      forall_eq', Value.truthy, Bool.false_eq_true, if_false, wp_deleteTree, reduceCtorEq,
      false_imp_iff, and_true]
    exact (wp_method (err_call V rc (by decide) _)).2 ⟨fun _ => rfl, fun _ => rfl⟩
  | link inode newParent newName =>
    obtain ⟨dstPath, hpath, hthrows⟩ := h
    refine .inl (hsent (link V H rc inode newParent newName) [] ?_)
    rcases hsrc : s.tree inode with _ | srcPath
    · simp [link, hpath, hsrc, Reply.new]
    · simp [link, hpath, hsrc, hthrows srcPath hsrc, Reply.new]
  | symlink parent target name =>
    obtain ⟨dstPath, hpath, hthrows⟩ := h
    exact .inl (hsent (symlink V H rc parent target name) []
      (by simp [symlink, hpath, hthrows, Reply.new]))
  | rename parent name newParent newName =>
    obtain ⟨oldPath, newPath, hold, hnew, hthrows⟩ := h
    exact .inl (hsent (rename V H rc parent name newParent newName) []
      (by simp [rename, hold, hnew, hthrows, Reply.new]))
  | create parent name mode fi =>
    obtain ⟨fspath, hpath, hthrows⟩ := h
    exact .inl (hsent (create V H rc parent name mode fi) []
      (by simp [create, hpath, hthrows, Reply.new]))
  | _ => exact h.elim

theorem not_reported_of_fails {s : State W} {e : Request} (h : Fails H s e.call) :
    ¬ Reported V D H s e := by
  intro hreported
  obtain ⟨code, hcode, hsent⟩ := hreported.sent
  rcases sent_of_fails V D H h e.rc with hnone | hzero
  · rw [hnone] at hsent
    cases hsent
  · rw [hzero] at hsent
    cases hsent
    exact hcode rfl

/-- No request of any run that fails on the host is replied to with an error and leaves the table as it
is. -/
theorem failures_unreported (w : W) (es : List Request) :
    Along (step V D H) (fun s e => Fails H s e.call → ¬ Reported V D H s e) (.init w) es :=
  along_of_forall _ (fun _ _ => not_reported_of_fails V D H) es _

/-- A host on which no directory can be made or removed. -/
def immutable : Host Unit :=
  { permissive with
    mkdirSync := fun _ _ w => (none, w)
    rmdir := fun _ w => (false, w) }

/-- A directory that cannot be made is not answered for, and one that cannot be removed is confirmed to
be removed. -/
theorem failures_mishandled :
    ¬ Along (step .amd64 .linux immutable)
      (fun s e => Fails immutable s e.call → Reported .amd64 .linux immutable s e) (.init ())
      [⟨.mkdir 1 "a".toList 0o755, Reply.succeed⟩]
    ∧ ¬ Along (step .amd64 .linux immutable)
      (fun s e => Fails immutable s e.call → Reported .amd64 .linux immutable s e) (.init ())
      [⟨.rmdir 1 "a".toList, Reply.succeed⟩] := by
  refine ⟨fun h => ?_, fun h => ?_⟩
  · have hfails : Fails immutable (.init ()) (.mkdir 1 "a".toList 0o755) := ⟨_, rfl, rfl⟩
    exact not_reported_of_fails _ _ _ hfails (h.1 hfails)
  · have hfails : Fails immutable (.init ()) (.rmdir 1 "a".toList) := ⟨_, rfl, rfl⟩
    exact not_reported_of_fails _ _ _ hfails (h.1 hfails)

end NodeFuse.NodeFs
