import Mathlib.Data.List.TakeWhile
import NodeFuse.NodeFs
import NodeFuse.Proofs.Reply

/-!
# How far the kernel gets through a directory

A request is answered with all entries at once or with nothing (`head_serveReaddir`), so the kernel
receives the directory in its first reply or not at all, and it must find the end in its second
request (`complete_iff`).
-/

namespace NodeFuse.NodeFs

open Packing Reply

variable (V : Runtime) (D : DirentFormat) (fs : Fs)

theorem cstring_eq_self {name : List UInt8} (h : EntryName name) : cstring name = name :=
  (cstring_eq_self_iff name).2 h.no_nul

theorem entries_valid {fs : Fs} {path : JsString} {names : List JsString}
    (h : fs.readdirSync path = some names) : ∀ name ∈ entries names, EntryName name.utf8 := by
  intro name hname
  rcases List.mem_append.1 hname with hdot | hname
  · simp only [List.mem_cons, List.not_mem_nil, or_false] at hdot
    rcases hdot with rfl | rfl <;> exact ⟨by decide, by decide, by decide, by decide⟩
  · exact fs.names_valid path names h name hname

/-- The call of `addDirEntry` in a turn of the loop. -/
def callAt (fspath : JsString) (offset : ℤ) (i : ℕ) (entry : JsString)
    (stat : List (String × Value)) : DirCall :=
  ⟨entry.utf8, (Value.object stat).set "inode" (.int (hash (Path.join fspath entry))),
    .fin (offset + i : ℤ), [], rfl⟩

/-- The calls of the loop, up to the first entry without a stat. -/
def calls (fspath : JsString) (offset : ℤ) : ℕ → List JsString → List DirCall
  | _, [] => []
  | i, entry :: rest =>
    match fs.lstatSync (Path.join fspath entry) with
    | none => []
    | some stat => callAt fspath offset i entry stat :: calls fspath offset (i + 1) rest

def store (fspath : JsString) (names : List JsString) (tree : Tree) : Tree :=
  names.foldl (fun tree name =>
    Function.update tree (hash (Path.join fspath name)) (some (Path.join fspath name))) tree

theorem store_cons (fspath name : JsString) (names : List JsString) (tree : Tree) :
    store fspath (name :: names) tree = store fspath names
      (Function.update tree (hash (Path.join fspath name)) (some (Path.join fspath name))) := rfl

theorem store_apply (fspath : JsString) (names : List JsString) (tree : Tree) (key : ℤ)
    (h : tree key = some fspath) :
    store fspath names tree key = some (pathAfter fspath names key) := by
  induction names using List.reverseRecOn with
  | nil => exact h
  | append_singleton names name ih =>
    unfold store pathAfter at ih ⊢
    rw [List.foldl_append, List.foldl_cons, List.foldl_nil, List.reverse_append,
      List.reverse_singleton, List.singleton_append, List.find?_cons]
    by_cases hkey : hash (Path.join fspath name) = key
    · rw [hkey, Function.update_self, decide_eq_true rfl]
    · rw [Function.update_of_ne (Ne.symm hkey), decide_eq_false hkey]
      exact ih

def hasStat (fspath name : JsString) : Bool := (fs.lstatSync (Path.join fspath name)).isSome

theorem args_callAt (fspath : JsString) (size offset : ℤ) (i : ℕ) (entry : JsString)
    (stat : List (String × Value)) :
    [.string entry.utf8, .int size,
        (Value.object stat).set "inode" (.int (hash (Path.join fspath entry))), .int (offset + i)]
      = (callAt fspath offset i entry stat).args (.fin size) := rfl

theorem readdirLoop_of_stats (rc : ℕ → ℤ) (fspath : JsString) (size offset : ℤ) :
    ∀ (names : List JsString) (i : ℕ) (tree : Tree) (r : Reply),
      (∀ name ∈ names, hasStat fs fspath name) →
        readdirLoop V D fs rc fspath size offset i names (tree, r) = (store fspath names tree,
          (buffer V rc [.buffer []]
            (addAll V D rc (.fin size) (calls fs fspath offset i names) r)).2)
  | [], _, _, _, _ => rfl
  | name :: names, i, tree, r, h => by
    obtain ⟨stat, hstat⟩ := Option.isSome_iff_exists.1 (h name List.mem_cons_self)
    have ih := fun tree r => readdirLoop_of_stats rc fspath size offset names (i + 1) tree r
      fun n hn => h n (List.mem_cons_of_mem _ hn)
    unfold readdirLoop calls
    simp only [hstat, args_callAt, ih]
    rw [store_cons, addAll_cons]

theorem readdirLoop_of_throw (rc : ℕ → ℤ) (fspath : JsString) (size offset : ℤ) :
    ∀ (names : List JsString) (i : ℕ) (tree : Tree) (r : Reply),
      (¬ ∀ name ∈ names, hasStat fs fspath name) →
        (readdirLoop V D fs rc fspath size offset i names (tree, r)).2
          = addAll V D rc (.fin size) (calls fs fspath offset i names) r
  | [], _, _, _, h => absurd (fun _ hn => absurd hn List.not_mem_nil) h
  | name :: names, i, tree, r, h => by
    unfold readdirLoop calls
    rcases hstat : fs.lstatSync (Path.join fspath name) with _ | stat
    · rfl
    · simp only [args_callAt]
      rw [addAll_cons]
      refine readdirLoop_of_throw rc fspath size offset names (i + 1) _ _ fun hall => h ?_
      intro n hn
      rcases List.mem_cons.1 hn with rfl | hn
      · unfold hasStat
        rw [hstat]
        rfl
      · exact hall n hn

theorem total_calls (fspath : JsString) (offset : ℤ) : ∀ (names : List JsString) (i : ℕ),
    (∀ name ∈ names, EntryName name.utf8) →
      total DirCall.size (calls fs fspath offset i names)
        = entriesSize (names.takeWhile (hasStat fs fspath))
  | [], _, _ => rfl
  | name :: names, i, h => by
    have ih := total_calls fspath offset names (i + 1)
      fun n hn => h n (List.mem_cons_of_mem _ hn)
    unfold calls
    rcases hstat : fs.lstatSync (Path.join fspath name) with _ | stat
    · have hno : ¬ hasStat fs fspath name = true := by
        unfold hasStat
        rw [hstat]
        decide
      rw [List.takeWhile_cons_of_neg hno]
      rfl
    · have hyes : hasStat fs fspath name = true := by
        unfold hasStat
        rw [hstat]
        rfl
      have hsize : (callAt fspath offset i name stat).size = direntSize name.utf8.length := by
        unfold callAt DirCall.size
        rw [cstring_eq_self (h name List.mem_cons_self)]
      unfold entriesSize at ih ⊢
      rw [List.takeWhile_cons_of_pos hyes, total_cons, total_cons, ih, hsize]

theorem calls_names (fspath : JsString) (offset : ℤ) : ∀ (names : List JsString) (i : ℕ),
    (∀ name ∈ names, hasStat fs fspath name) →
      (calls fs fspath offset i names).map DirCall.name = names.map JsString.utf8
  | [], _, _ => rfl
  | name :: names, i, h => by
    obtain ⟨stat, hstat⟩ := Option.isSome_iff_exists.1 (h name List.mem_cons_self)
    unfold calls
    rw [hstat]
    exact congrArg (_ :: ·) (calls_names fspath offset names (i + 1)
      fun n hn => h n (List.mem_cons_of_mem _ hn))

theorem calls_last (fspath : JsString) (offset : ℤ) : ∀ (names : List JsString) (i : ℕ),
    (∀ name ∈ names, hasStat fs fspath name) → names ≠ [] →
      ((calls fs fspath offset i names).getLast?).map DirCall.offset
        = some (.fin (offset + (i + names.length - 1) : ℤ))
  | [], _, _, hne => absurd rfl hne
  | [name], i, h, _ => by
    obtain ⟨stat, hstat⟩ := Option.isSome_iff_exists.1 (h name List.mem_cons_self)
    unfold calls
    rw [hstat]
    simp [calls, callAt]
  | name :: next :: names, i, h, _ => by
    obtain ⟨stat, hstat⟩ := Option.isSome_iff_exists.1 (h name List.mem_cons_self)
    obtain ⟨stat', hstat'⟩ := Option.isSome_iff_exists.1
      (h next (List.mem_cons_of_mem _ List.mem_cons_self))
    have ih := calls_last fspath offset (next :: names) (i + 1)
      (fun n hn => h n (List.mem_cons_of_mem _ hn)) (List.cons_ne_nil _ _)
    unfold calls at ih ⊢
    rw [hstat]
    unfold calls
    rw [hstat'] at ih ⊢
    rw [List.getLast?_cons_cons, ih]
    simp only [List.length_cons, Nat.cast_add, Nat.cast_one]
    congr 3
    ring

theorem head_readdirLoop (rc : ℕ → ℤ) (fspath : JsString) (size offset : ℤ)
    (names : List JsString) (tree : Tree) (hvalid : ∀ name ∈ names, EntryName name.utf8) :
    (readdirLoop V D fs rc fspath size offset 0 names (tree, .new)).2.sent.head?
      = if requestedSize V (.fin size) < entriesSize (names.takeWhile (hasStat fs fspath)) then
          some (.buf [])
        else if ∀ name ∈ names, hasStat fs fspath name then
          some (.buf ((calls fs fspath offset 0 names).flatMap (·.encoding V D)))
        else none := by
  rw [← total_calls fs fspath offset names 0 hvalid]
  by_cases hall : ∀ name ∈ names, hasStat fs fspath name
  · rw [readdirLoop_of_stats V D fs rc fspath size offset names 0 tree .new hall, if_pos hall]
    exact head_answer V D rc (.fin size) _
  · rw [readdirLoop_of_throw V D fs rc fspath size offset names 0 tree .new hall, if_neg hall]
    exact head_sent_addAll V D rc (.fin size) _

def entryOf (c : DirCall) : Entry :=
  ⟨cstring c.name, (V.objectToStat c.stat V.stack).ino, V.integerValue (.number c.offset)⟩

theorem decode_encodings : ∀ cs : List DirCall, (∀ c ∈ cs, EntryName (cstring c.name)) →
    D.decode (cs.flatMap (·.encoding V D)) = cs.map (entryOf V)
  | [], _ => D.decode_nil
  | c :: cs, h => by
    rw [List.flatMap_cons, List.map_cons, DirCall.encoding,
      D.decode_encode _ _ _ (h c List.mem_cons_self),
      decode_encodings cs fun c' hc' => h c' (List.mem_cons_of_mem _ hc')]
    rfl

theorem decode_calls {fspath : JsString} {names : List JsString} (offset : ℤ)
    (hvalid : ∀ name ∈ names, EntryName name.utf8)
    (hall : ∀ name ∈ names, hasStat fs fspath name) :
    D.decode ((calls fs fspath offset 0 names).flatMap (·.encoding V D))
        = (calls fs fspath offset 0 names).map (entryOf V)
      ∧ ((calls fs fspath offset 0 names).map (entryOf V)).map Entry.name
        = names.map JsString.utf8 := by
  have hnames := calls_names fs fspath offset names 0 hall
  have hname : ∀ c ∈ calls fs fspath offset 0 names, EntryName c.name := by
    intro c hc
    have hmem : c.name ∈ names.map JsString.utf8 := by
      rw [← hnames]
      exact List.mem_map_of_mem hc
    obtain ⟨name, hname, heq⟩ := List.mem_map.1 hmem
    exact heq ▸ hvalid name hname
  have hself : ∀ c ∈ calls fs fspath offset 0 names, cstring c.name = c.name :=
    fun c hc => cstring_eq_self (hname c hc)
  refine ⟨decode_encodings V D _ fun c hc => ?_, ?_⟩
  · rw [hself c hc]
    exact hname c hc
  · rw [← hnames, List.map_map]
    exact List.map_congr_left hself

section Kernel

variable (ino size : UInt64)

theorem head_serveReaddir {tree : Tree} {fspath : JsString} {names : List JsString}
    (htree : tree (Number.new ino.toNat) = some fspath)
    (hnames : fs.readdirSync fspath = some names) (off : Int64) :
    (serveReaddir V D fs ino size off tree).2.sent.head?
      = if (entries names).length ≤ Integer.new off.toInt + 1 then some (.buf [])
        else (readdirLoop V D fs succeed fspath (Integer.new size.toNat) (Integer.new off.toInt) 0
          (entries names) (tree, .new)).2.sent.head? := by
  unfold serveReaddir readdir
  rw [htree, Option.bind_some, hnames, Option.map_some]
  simp only []
  split_ifs
  · rfl
  · rfl

/-- A request is answered with nothing when the directory has no entry from its offset on, or when
the entries with a stat overflow the reply. -/
theorem head_serveReaddir_eq_nil_iff {tree : Tree} {fspath : JsString}
    (htree : tree (Number.new ino.toNat) = some fspath) (off : Int64) :
    (serveReaddir V D fs ino size off tree).2.sent.head? = some (.buf [])
      ↔ ∃ names, fs.readdirSync fspath = some names
        ∧ ((entries names).length ≤ Integer.new off.toInt + 1
          ∨ requestedSize V (.fin (Integer.new size.toNat))
            < entriesSize ((entries names).takeWhile (hasStat fs fspath))) := by
  rcases hnames : fs.readdirSync fspath with _ | names
  · unfold serveReaddir readdir
    rw [htree, Option.bind_some, hnames]
    simp [Reply.new]
  · rw [head_serveReaddir V D fs ino size htree hnames,
      head_readdirLoop V D fs _ _ _ _ _ _ (entries_valid hnames)]
    simp only [Option.some.injEq, exists_eq_left']
    split_ifs with hend hover hall
    · exact iff_of_true rfl (.inl hend)
    · exact iff_of_true rfl (.inr hover)
    · refine iff_of_false (fun h => ?_) (by rintro (h | h) <;> contradiction)
      rw [Option.some.injEq, FuseReply.buf.injEq, flatMap_encoding_eq_nil_iff] at h
      have hlen := congrArg List.length (calls_names fs fspath (Integer.new off.toInt) _ 0 hall)
      rw [h] at hlen
      simp [entries] at hlen
    · exact iff_of_false (by simp) (by rintro (h | h) <;> contradiction)

variable {V D fs ino size}

theorem enumerate_of_empty {off : Int64} {tree : Tree}
    (h : (serveReaddir V D fs ino size off tree).2.sent.head? = some (.buf [])) (fuel : ℕ) :
    enumerate V D fs ino size (fuel + 1) off tree = some [] := by
  rw [enumerate, h]

theorem enumerate_of_unanswered {off : Int64} {tree : Tree}
    (h : (serveReaddir V D fs ino size off tree).2.sent.head? = none) :
    ∀ fuel, enumerate V D fs ino size fuel off tree = none
  | 0 => rfl
  | fuel + 1 => by rw [enumerate, h]

theorem enumerate_of_entries {off : Int64} {tree : Tree} {bytes : List UInt8} {last : Entry}
    (h : (serveReaddir V D fs ino size off tree).2.sent.head? = some (.buf bytes))
    (hbytes : bytes ≠ []) (hlast : (D.decode bytes).getLast? = some last) (fuel : ℕ) :
    enumerate V D fs ino size (fuel + 1) off tree
      = (enumerate V D fs ino size fuel last.off
          (serveReaddir V D fs ino size off tree).1).map (D.decode bytes ++ ·) := by
  obtain ⟨b, bytes, rfl⟩ := List.exists_cons_of_ne_nil hbytes
  rw [enumerate, h]
  simp only [hlast, Option.bind_eq_bind, Option.bind_some]
  rcases enumerate V D fs ino size fuel last.off
    (serveReaddir V D fs ino size off tree).1 with _ | more
  · rfl
  · rfl

/-- The kernel receives nothing at all only where its first request is answered with nothing. -/
theorem head_of_enumerate_nil {off : Int64} {tree : Tree} :
    ∀ {fuel : ℕ}, enumerate V D fs ino size fuel off tree = some [] →
      (serveReaddir V D fs ino size off tree).2.sent.head? = some (.buf [])
  | 0, h => by cases h
  | fuel + 1, h => by
    rw [enumerate] at h
    split at h
    · assumption
    · simp only [Option.bind_eq_bind, Option.bind_eq_some_iff, Option.pure_def,
        Option.some.injEq, List.append_eq_nil_iff] at h
      obtain ⟨last, hlast, more, -, hnil, -⟩ := h
      rw [hnil] at hlast
      cases hlast
    · cases h

theorem two_le_length_entries (names : List JsString) : 2 ≤ (entries names).length := by
  unfold entries
  rw [List.length_append, List.length_cons, List.length_singleton]
  omega

/-- A directory whose first request is answered with nothing is not received. -/
theorem not_complete_of_empty {tree : Tree} {names : List JsString}
    (h : (serveReaddir V D fs ino size 0 tree).2.sent.head? = some (.buf [])) :
    ¬ Complete V D fs ino size tree names := by
  rintro ⟨_ | fuel, es, hes, hperm⟩
  · cases hes
  · have htwo := two_le_length_entries names
    have hlen := hperm.length_eq
    rw [enumerate_of_empty h, Option.some.injEq] at hes
    rw [← hes, List.length_map, List.length_map, List.length_nil] at hlen
    omega

theorem not_complete_of_unanswered {tree : Tree} {names : List JsString}
    (h : (serveReaddir V D fs ino size 0 tree).2.sent.head? = none) :
    ¬ Complete V D fs ino size tree names := by
  rintro ⟨fuel, es, hes, -⟩
  rw [enumerate_of_unanswered h] at hes
  cases hes

/-- Once the first reply has every name, the enumeration is complete exactly when the next request
ends it. -/
theorem complete_iff_of_entries {tree : Tree} {names : List JsString} {bytes : List UInt8}
    {last : Entry} (h : (serveReaddir V D fs ino size 0 tree).2.sent.head? = some (.buf bytes))
    (hbytes : bytes ≠ []) (hlast : (D.decode bytes).getLast? = some last)
    (hread : (D.decode bytes).map Entry.name = (entries names).map JsString.utf8) :
    Complete V D fs ino size tree names
      ↔ (serveReaddir V D fs ino size last.off
          (serveReaddir V D fs ino size 0 tree).1).2.sent.head? = some (.buf []) := by
  refine ⟨fun hc => ?_, fun hend => ?_⟩
  · obtain ⟨_ | fuel, es, hes, hperm⟩ := hc
    · cases hes
    · rw [enumerate_of_entries h hbytes hlast, Option.map_eq_some_iff] at hes
      obtain ⟨more, hes, rfl⟩ := hes
      -- there is no name left for a second reply
      have hlen := hperm.length_eq
      rw [List.map_append, hread, List.length_append, Nat.add_eq_left, List.length_map,
        List.length_eq_zero_iff] at hlen
      rw [hlen] at hes
      exact head_of_enumerate_nil hes
  · refine ⟨2, D.decode bytes ++ [], ?_, ?_⟩
    · rw [enumerate_of_entries h hbytes hlast, enumerate_of_empty hend, Option.map_some]
    · rw [List.append_nil, hread]

theorem length_entries_lt {cap : ℕ} {names : List JsString} (hcap : cap < 2 ^ 64)
    (h : entriesSize names ≤ cap) : names.length < 2 ^ 63 := by
  have hle : 24 * names.length ≤ entriesSize names :=
    mul_length_le_total _ (fun name => by
      have := le_direntSize (JsString.utf8 name).length
      omega) names
  omega

/-- Where all entries have a stat and fit one reply, the first request is answered with all of them,
the last one at the offset of the end. -/
theorem first_request {tree : Tree} {fspath : JsString} {names : List JsString}
    (htree : tree (Number.new ino.toNat) = some fspath)
    (hnames : fs.readdirSync fspath = some names)
    (hall : ∀ name ∈ entries names, hasStat fs fspath name)
    (hfits : entriesSize (entries names) ≤ requestedSize V (.fin (Integer.new size.toNat))) :
    ∃ bytes last, (serveReaddir V D fs ino size 0 tree).2.sent.head? = some (.buf bytes)
      ∧ bytes ≠ [] ∧ (D.decode bytes).map Entry.name = (entries names).map JsString.utf8
      ∧ (D.decode bytes).getLast? = some last
      ∧ last.off.toInt = (entries names).length - 1
      ∧ (serveReaddir V D fs ino size 0 tree).1 (Number.new ino.toNat)
        = some (pathAfter fspath (entries names) (Number.new ino.toNat)) := by
  have htwo := two_le_length_entries names
  have hvalid := entries_valid hnames
  have hzero : Integer.new (0 : Int64).toInt = 0 := by decide
  have hmore : ¬ ((entries names).length : ℤ) ≤ (0 : ℤ) + 1 := by omega
  have htake : (entries names).takeWhile (hasStat fs fspath) = entries names :=
    List.takeWhile_eq_self_iff.2 hall
  have hne : entries names ≠ [] := List.ne_nil_of_length_pos (by omega)
  obtain ⟨hdecode, hread⟩ := decode_calls V D fs 0 hvalid hall
  have hcalls : calls fs fspath 0 0 (entries names) ≠ [] := by
    intro hnil
    rw [hnil] at hread
    exact hne (List.map_eq_nil_iff.1 hread.symm)
  obtain ⟨c, hc⟩ := Option.isSome_iff_exists.1 (List.getLast?_isSome.2 hcalls)
  have hoffset := calls_last fs fspath 0 (entries names) 0 hall hne
  rw [hc, Option.map_some, Option.some.injEq] at hoffset
  refine ⟨(calls fs fspath 0 0 (entries names)).flatMap (·.encoding V D), entryOf V c,
    ?_, ?_, ?_, ?_, ?_, ?_⟩
  · rw [head_serveReaddir V D fs ino size htree hnames, hzero, if_neg hmore,
      head_readdirLoop V D fs _ _ _ _ _ _ hvalid, htake, if_neg (not_lt.2 hfits), if_pos hall]
  · rw [Ne, flatMap_encoding_eq_nil_iff]
    exact hcalls
  · rw [hdecode]
    exact hread
  · rw [hdecode, List.getLast?_map, hc]
    rfl
  · have hlt := length_entries_lt (requestedSize_lt V _) hfits
    have hint := V.integerValue_int (n := (0 : ℤ) + (((0 : ℕ) : ℤ) + (entries names).length - 1))
      (by omega) (by omega)
    unfold entryOf
    rw [hoffset, show Value.number (.fin _) = Value.int _ from rfl, hint,
      Int64.toInt_ofInt_of_le (by omega) (by omega)]
    omega
  · unfold serveReaddir readdir
    rw [htree, Option.bind_some, hnames, Option.map_some]
    simp only []
    rw [hzero, if_neg hmore, readdirLoop_of_stats V D fs _ _ _ _ _ _ _ _ hall]
    have hstore := store_apply fspath (entries names) tree _ htree
    simp only []
    exact hstore

/-- The enumeration of a directory is complete and without duplicates exactly when its entries fit
one reply and the next request ends it. -/
theorem complete_iff {tree : Tree} {fspath : JsString} {names : List JsString}
    (htree : tree (Number.new ino.toNat) = some fspath)
    (hnames : fs.readdirSync fspath = some names) :
    Complete V D fs ino size tree names ↔ FitsOneReply V fs ino size fspath names := by
  have htwo := two_le_length_entries names
  have hzero : Integer.new (0 : Int64).toInt = 0 := by decide
  have hmore : ¬ ((entries names).length : ℤ) ≤ (0 : ℤ) + 1 := by omega
  have hfirst := head_serveReaddir V D fs ino size htree hnames 0
  rw [hzero, if_neg hmore, head_readdirLoop V D fs _ _ _ _ _ _ (entries_valid hnames)] at hfirst
  by_cases hall : ∀ name ∈ entries names, hasStat fs fspath name
  · have htake : (entries names).takeWhile (hasStat fs fspath) = entries names :=
      List.takeWhile_eq_self_iff.2 hall
    rw [htake, if_pos hall] at hfirst
    by_cases hover : requestedSize V (.fin (Integer.new size.toNat)) < entriesSize (entries names)
    · -- the first reply is empty, and the directory is not
      rw [if_pos hover] at hfirst
      refine iff_of_false (not_complete_of_empty hfirst) fun h => ?_
      have := h.fits
      omega
    · obtain ⟨bytes, last, hbytes, hne, hread, hlast, hoff, hpath⟩ :=
        first_request htree hnames hall (not_lt.1 hover)
      have hsecond := head_serveReaddir_eq_nil_iff V D fs ino size hpath last.off
      rw [hoff] at hsecond
      rw [complete_iff_of_entries hbytes hne hlast hread, hsecond]
      exact ⟨fun h => ⟨hall, not_lt.1 hover, h⟩, fun h => h.ends⟩
  · -- a stat throws, so there is no reply unless an earlier entry overflowed
    refine iff_of_false ?_ fun h => hall h.stats
    rw [if_neg hall] at hfirst
    split_ifs at hfirst with hover
    · exact not_complete_of_empty hfirst
    · exact not_complete_of_unanswered hfirst

end Kernel

def oneFile : Fs where
  readdirSync path := if path = "/tmp/".toList then some [['a']] else none
  lstatSync _ := some []
  names_valid := by
    intro path names h name hname
    obtain ⟨-, ⟨⟩⟩ := Option.ite_none_right_eq_some.1 h
    rw [List.mem_singleton.1 hname]
    exact ⟨by decide, by decide, by decide, by decide⟩

theorem one_file_complete :
    Complete .amd64 .linux oneFile 1 4096 rootTree [['a']] := by
  refine (complete_iff rfl rfl).2 ⟨fun _ _ => rfl, ?_, ?_⟩
  · rw [show Integer.new (4096 : UInt64).toNat = ((4096 : ℕ) : ℤ) by decide,
      requestedSize_natCast .amd64 (by decide)]
    decide
  · exact ⟨[['a']], by decide, .inl (by decide)⟩

/-- Each of the three entries takes 32 bytes, and a kernel that asks for 64 receives none of them. -/
theorem one_file_not_enumerated :
    (∀ name ∈ entries [['a']], direntSize name.utf8.length ≤ 64)
      ∧ ¬ Complete .amd64 .linux oneFile 1 64 rootTree [['a']] := by
  have hsize : requestedSize .amd64 (.fin (Integer.new (64 : UInt64).toNat)) = 64 := by
    rw [show Integer.new (64 : UInt64).toNat = ((64 : ℕ) : ℤ) by decide,
      requestedSize_natCast .amd64 (by decide)]
  have hroot : rootTree (Number.new (1 : UInt64).toNat) = some "/tmp/".toList := rfl
  have hfirst : (serveReaddir .amd64 .linux oneFile 1 64 0 rootTree).2.sent.head?
      = some (.buf []) := by
    rw [head_serveReaddir_eq_nil_iff .amd64 .linux oneFile 1 64 hroot]
    refine ⟨[['a']], rfl, .inr ?_⟩
    rw [hsize]
    decide
  exact ⟨by decide, not_complete_of_empty hfirst⟩

end NodeFuse.NodeFs
