import NodeFuse.Collisions
import NodeFuse.Lib.RollingHash
import NodeFuse.Proofs.Confinement

/-!
# Names that share an inode number

For plain names `path.join` only puts the directory before them (`exists_join_eq`), and behind the same
text the hash cannot tell the pairs apart (`hash_pairs`). So the names with `k` pairs, which are `2 ^ k`,
have one number in every directory, and that leads to the one looked up last (`names_share_number`).
-/

namespace NodeFuse

namespace Path

theorem intercalate_concat (l : List JsString) (name : JsString) :
    ['/'].intercalate (l ++ [name]) = l.flatMap (· ++ ['/']) ++ name := by
  induction l with
  | nil => simp [List.intercalate]
  | cons part l ih =>
    rw [List.flatMap_cons, List.append_assoc, ← ih]
    rcases l with _ | ⟨part', l⟩
    · simp [List.intercalate]
    · simp [List.intercalate]

/-- A plain name is put behind what `path.join` makes of the directory. -/
theorem exists_join_eq {dir : JsString} {p : AbsPath} (h : Leads dir p) :
    ∃ pre, ∀ name, Plain name → join dir name = pre ++ name := by
  refine ⟨'/' :: p.parts.flatMap (· ++ ['/']), fun name hname => ?_⟩
  have hdir : dir ≠ [] := fun hnil => by
    have := h.absolute
    rw [hnil] at this
    cases this
  have hjoined : ['/'].intercalate ([dir, name].filter (· ≠ [])) = dir ++ '/' :: name := by
    simp [hdir, hname.ne_nil, List.intercalate]
  have habsolute : (dir ++ '/' :: name).head? = some '/' := by
    rw [List.head?_append, h.absolute]
    rfl
  have htrailing : (dir ++ '/' :: name).getLast? ≠ some '/' := by
    intro hlast
    rw [List.getLast?_append, List.getLast?_cons, Option.some_or, Option.some.injEq] at hlast
    refine hname.no_slash ?_
    rw [← hlast, List.getLast?_eq_some_getLast hname.ne_nil, Option.getD_some]
    exact List.getLast_mem hname.ne_nil
  have hparts : ((dir ++ '/' :: name).splitOn '/').filter (· ≠ []) = p.parts ++ [name] := by
    show parts (dir ++ '/' :: name) = _
    rw [parts_append_slash, h.parts, parts_of_no_slash hname.ne_nil hname.no_slash]
  have hkept := normalizeArray_concat p.plain name
  rw [if_neg hname.ne_dot, if_neg hname.ne_dotdot] at hkept
  unfold join normalize
  rw [hjoined]
  simp only [habsolute, htrailing, hparts, not_true_eq_false, decide_false, and_false,
    if_false, if_true]
  rw [hkept, intercalate_concat, List.cons_append]

end Path

namespace NodeFs

open RollingHash

theorem shiftLeft_five (h : Int32) : h <<< (5 : Int32) = 32 * h := by
  have htwo : (32 : Int32).toBitVec = BitVec.twoPow 32 5 := rfl
  rw [← Int32.toBitVec_inj, Int32.toBitVec_shiftLeft, Int32.toBitVec_mul, BitVec.mul_comm, htwo,
    BitVec.mul_twoPow_eq_shiftLeft]
  rfl

/-- One turn of the loop of `self.hash` multiplies by 31. -/
theorem hash_turn (z : ℤ) (c : ℕ) :
    (Int32.ofInt z <<< (5 : Int32)) - Int32.ofInt z + Int32.ofNat c = Int32.ofInt (31 * z + c) := by
  have hshift : (Int32.ofInt z <<< (5 : Int32)) - Int32.ofInt z = 31 * Int32.ofInt z := by
    rw [shiftLeft_five]
    grind
  rw [hshift, Int32.ofInt_add, Int32.ofInt_mul]
  rfl

def units (str : JsString) : List ℤ := (str.flatMap JsString.codeUnits).map Nat.cast

theorem units_append (l m : JsString) : units (l ++ m) = units l ++ units m := by
  unfold units
  rw [List.flatMap_append, List.map_append]

theorem foldl_ofInt (l : List ℕ) (z : ℤ) :
    l.foldl (fun (hash : Int32) c => (hash <<< 5) - hash + Int32.ofNat c) (Int32.ofInt z)
      = Int32.ofInt ((l.map Nat.cast).foldl (fun h c => 31 * h + c) z) := by
  induction l generalizing z with
  | nil => rfl
  | cons c l ih => rw [List.foldl_cons, hash_turn, ih, List.map_cons, List.foldl_cons]

/-- The hash is the polynomial of the code units at 31, in 32 bits and without its sign. -/
theorem hash_eq (str : JsString) :
    hash str = (Int32.ofInt (rolling 31 (units str))).toInt.natAbs := by
  unfold hash rolling units
  rw [← foldl_ofInt]
  rfl

theorem units_pairs (choices : List Bool) : units (pairs choices)
    = choices.flatMap fun b => if b then [66, 66] else [65, 97] := by
  induction choices with
  | nil => rfl
  | cons b choices ih =>
    have hcons : pairs (b :: choices) = (if b then ['B', 'B'] else ['A', 'a']) ++ pairs choices := rfl
    rw [hcons, units_append, ih, List.flatMap_cons]
    cases b <;> rfl

/-- Behind the same text, names with as many pairs have the same hash. -/
theorem hash_pairs (pre : JsString) {choices choices' : List Bool}
    (h : choices.length = choices'.length) :
    hash (pre ++ pairs choices) = hash (pre ++ pairs choices') := by
  have hlen : ∀ b : Bool, (if b then [66, 66] else [65, 97] : List ℤ).length = 2 := by
    intro b
    cases b <;> rfl
  have hvalue : ∀ b : Bool, rolling 31 (if b then [66, 66] else [65, 97] : List ℤ) = 2112 := by
    intro b
    cases b <;> rfl
  have hunits : (units (pairs choices)).length = (units (pairs choices')).length := by
    simp [units_pairs, List.length_flatMap, hlen, List.map_const', h]
  have hrolling : rolling 31 (units (pairs choices)) = rolling 31 (units (pairs choices')) := by
    rw [units_pairs, units_pairs]
    exact rolling_flatMap 31 hlen hvalue h
  rw [hash_eq, hash_eq, units_append, units_append, rolling_append_congr 31 hunits hrolling]

theorem mem_pairs {choices : List Bool} {c : Char} (h : c ∈ pairs choices) :
    c = 'A' ∨ c = 'a' ∨ c = 'B' := by
  obtain ⟨b, -, hc⟩ := List.mem_flatMap.1 h
  cases b
  · simp at hc
    rcases hc with rfl | rfl
    · exact .inl rfl
    · exact .inr (.inl rfl)
  · simp at hc
    exact .inr (.inr hc)

theorem plain_pairs {choices : List Bool} (h : choices ≠ []) : Plain (pairs choices) := by
  have hdot : '.' ∉ pairs choices := fun hmem => by
    have := mem_pairs hmem
    simp at this
  refine ⟨fun hnil => ?_, fun hmem => ?_, fun heq => ?_, fun heq => ?_⟩
  · obtain ⟨b, choices, rfl⟩ := List.exists_cons_of_ne_nil h
    cases b <;> cases hnil
  · have := mem_pairs hmem
    simp at this
  · exact hdot (heq ▸ List.mem_cons_self)
  · exact hdot (heq ▸ List.mem_cons_self)

theorem pairs_injective : Function.Injective pairs := by
  intro choices
  induction choices with
  | nil =>
    intro choices' h
    rcases choices' with _ | ⟨b, choices'⟩
    · rfl
    · cases b <;> cases h
  | cons b choices ih =>
    intro choices' h
    rcases choices' with _ | ⟨b', choices'⟩
    · cases b <;> cases h
    · cases b <;> cases b' <;> simp [pairs] at h
      · rw [ih h]
      · rw [ih h]

/-- In a directory all names with as many pairs have one number. -/
theorem hash_join_pairs {dir : JsString} {p : AbsPath} (h : Path.Leads dir p) {choices : List Bool}
    (hne : choices ≠ []) : hash (Path.join dir (pairs choices)) = sharedNumber dir choices.length := by
  obtain ⟨pre, hpre⟩ := Path.exists_join_eq h
  have hlen := List.length_replicate (n := choices.length) (a := false)
  have hne' : List.replicate choices.length false ≠ [] := fun hnil =>
    hne (List.eq_nil_of_length_eq_zero (by rw [← hlen, hnil, List.length_nil]))
  unfold sharedNumber
  rw [hpre _ (plain_pairs hne), hpre _ (plain_pairs hne')]
  exact hash_pairs pre hlen.symm

section Lookups

open Runs Throwing

variable {W : Type} (V : Platform) (D : DirentFormat) (H : Host W)

theorem world_lookup (s : State W) (rc : ℕ → ℤ) (parent : ℤ) (name : JsString) :
    (next V D H s ⟨.lookup parent name, rc⟩).world = s.world :=
  (keeps_lookup (P := fun w => w = s.world) parent name).final rfl

/-- A lookup that finds its file. -/
theorem next_lookup {s : State W} {parent : ℤ} {dir name : JsString} (hdir : s.tree parent = some dir)
    (hstat : ((H.fs s.world).lstatSync (Path.join dir name)).isSome) :
    (next V D H s ⟨.lookup parent name, Reply.succeed⟩).tree
        = Function.update s.tree (hash (Path.join dir name)) (some (Path.join dir name))
      ∧ (next V D H s ⟨.lookup parent name, Reply.succeed⟩).given
        = s.given ++ [⟨Path.join dir name, hash (Path.join dir name)⟩] := by
  obtain ⟨stats, hstats⟩ := Option.isSome_iff_exists.1 hstat
  have hstored : stored H s Reply.succeed (.lookup parent name) = some (Path.join dir name) := by
    simp [stored, join, hdir, hstats, Reply.succeed]
  have hwrites : writes H s ⟨.lookup parent name, Reply.succeed⟩
      = [.store (Path.join dir name)] := by
    simp [writes, hstored, deleted]
  have hgiven : givenPaths V H s ⟨.lookup parent name, Reply.succeed⟩ = [Path.join dir name] := by
    simp [givenPaths, hstored, Reply.succeed]
  rw [tree_next, given_next, hwrites, hgiven]
  exact ⟨rfl, rfl⟩

variable {V D H}

/-- The directory is there still, and the names looked up so far share the number. -/
structure LookedUp (parent : ℤ) (dir : JsString) (number : ℤ) (w : W) (words : List (List Bool))
    (s : State W) : Prop where
  world : s.world = w
  tree : s.tree parent = some dir
  shared : SharedBy dir number words s

theorem lookedUp_concat {parent : ℤ} {dir : JsString} {p : AbsPath} (hleads : Path.Leads dir p)
    {w : W} {words : List (List Bool)} {choices : List Bool} (hne : choices ≠ [])
    (hparent : parent ≠ sharedNumber dir choices.length)
    (hstat : ((H.fs w).lstatSync (Path.join dir (pairs choices))).isSome) {s s' : State W}
    (h : LookedUp parent dir (sharedNumber dir choices.length) w words s)
    (hs' : step V D H s ⟨.lookup parent (pairs choices), Reply.succeed⟩ = some s') :
    LookedUp parent dir (sharedNumber dir choices.length) w (words ++ [choices]) s' := by
  obtain rfl := Option.some.inj hs'
  have hhash := hash_join_pairs hleads hne
  obtain ⟨htree, hgiven⟩ := next_lookup V D H h.tree (h.world ▸ hstat)
  rw [hhash] at htree hgiven
  refine ⟨?_, ?_, ⟨?_, ?_⟩⟩
  · rw [world_lookup, h.world]
  · rw [htree, Function.update_of_ne hparent, h.tree]
  · intro c hc
    rw [hgiven]
    rcases List.mem_append.1 hc with hc | hc
    · exact List.mem_append_left _ (h.shared.given c hc)
    · rw [List.mem_singleton.1 hc]
      exact List.mem_append_right _ (List.mem_singleton_self _)
  · intro c hc
    rw [List.getLast?_append, List.getLast?_singleton, Option.some_or] at hc
    obtain rfl := Option.some.inj hc
    rw [htree, Function.update_self]

/-- In every directory the `2 ^ k` names with `k` pairs are plain names, no two alike, and whichever of
them are looked up there, in whatever order, all are given the same number, and it leads to the last
one. -/
theorem names_share_number (k : ℕ) (hk : k ≠ 0) {dir : JsString} {p : AbsPath}
    (hleads : Path.Leads dir p) {s : State W} {parent : ℤ} (hdir : s.tree parent = some dir)
    (hparent : parent ≠ sharedNumber dir k) :
    (∀ choices : List Bool, choices.length = k → Plain (pairs choices)) ∧ Function.Injective pairs
      ∧ ∀ words : List (List Bool), (∀ choices ∈ words, choices.length = k
          ∧ ((H.fs s.world).lstatSync (Path.join dir (pairs choices))).isSome) →
        ∀ s', run (step V D H) s (lookups parent words) = some s' →
          SharedBy dir (sharedNumber dir k) words s' := by
  have hne : ∀ choices : List Bool, choices.length = k → choices ≠ [] := by
    rintro choices hlen rfl
    exact hk hlen.symm
  refine ⟨fun choices hlen => plain_pairs (hne choices hlen), pairs_injective,
    fun words hwords s' hs' => ?_⟩
  have hall : LookedUp parent dir (sharedNumber dir k) s.world words s' := by
    induction words using List.reverseRecOn generalizing s' with
    | nil =>
      obtain rfl := Option.some.inj hs'
      exact ⟨rfl, hdir, by simp, by simp⟩
    | append_singleton words choices ih =>
      unfold lookups at hs' ih
      rw [List.map_append, List.map_singleton, run_concat] at hs'
      obtain ⟨m, hm, hs'⟩ := hs'
      obtain ⟨hlen, hstat⟩ := hwords choices (List.mem_append_right _ (List.mem_singleton_self _))
      have hm := ih (fun c hc => hwords c (List.mem_append_left _ hc)) m hm
      subst hlen
      exact lookedUp_concat hleads (hne choices rfl) hparent hstat hm hs'
  exact hall.shared

theorem names_in_root_share_number : SharedBy rootPath (sharedNumber rootPath 2)
    [[true, false], [false, true], [false, false]]
    ((lookups 1 [[true, false], [false, true], [false, false]]).foldl
      (next .amd64 .linux permissive) (.init ())) := by
  have hleads : Path.Leads rootPath ⟨[tmp], by decide⟩ := ⟨by decide, by decide⟩
  have hnumber : (1 : ℤ) ≠ sharedNumber rootPath 2 := by decide
  have hwords : ∀ choices ∈ [[true, false], [false, true], [false, false]], choices.length = 2
      ∧ (((permissive.fs ()).lstatSync (Path.join rootPath (pairs choices))).isSome : Prop) := by
    have hlens : ∀ choices ∈ [[true, false], [false, true], [false, false]], choices.length = 2 := by
      decide
    exact fun choices hchoices => ⟨hlens choices hchoices, rfl⟩
  have htree : (State.init () : State Unit).tree 1 = some rootPath := rfl
  exact (names_share_number 2 (by decide) hleads htree hnumber).2.2 _ hwords _ (run_total _ _ _)

end Lookups

end NodeFs

end NodeFuse
