import NodeFuse.Accumulator

/-!
# What the directory accumulator holds

With one size in all calls, `AddDirEntry` packs the entries in order and passes over those that do
not fit, so the block begins with what was taken (`Represents.addAll`). With a size of its own in
each call, the writes stay in the block exactly as long as no entry is given more than the first
call asked for, and no call asks for less than was gathered (`safe_iff`).
-/

namespace NodeFuse.Reply

open Packing

variable (V : Runtime) (D : DirentFormat)

@[simp] theorem length_writeAt (block bytes : List UInt8) (pos : ℕ) :
    (writeAt block pos bytes).length = block.length := by
  unfold writeAt
  rw [List.length_take, List.length_append, List.length_append, List.length_take,
    List.length_drop]
  omega

theorem take_writeAt {block bytes : List UInt8} {pos : ℕ}
    (h : pos + bytes.length ≤ block.length) :
    (writeAt block pos bytes).take (pos + bytes.length) = block.take pos ++ bytes := by
  have hlen : (block.take pos ++ bytes).length = pos + bytes.length := by
    rw [List.length_append, List.length_take]
    omega
  unfold writeAt
  rw [List.take_take, min_eq_left h, List.take_left' hlen]

theorem requestedSize_lt (size : Num) : requestedSize V size < 2 ^ 64 :=
  UInt64.toNat_lt _

theorem requestedSize_natCast {n : ℕ} (h : n < 2 ^ 63) :
    requestedSize V (.fin (n : ℤ)) = n := by
  have hint : V.integerValue (.int n) = Int64.ofInt n :=
    V.integerValue_int (by omega) (by omega)
  unfold requestedSize Runtime.sizeValue
  rw [show Value.number (.fin ((n : ℤ) : ℚ)) = Value.int n from rfl, hint,
    Int64.ofInt_eq_ofNat, Int64.toUInt64_ofNat', UInt64.toNat_ofNat']
  omega

theorem le_size (c : DirCall) : 24 ≤ c.size := by
  have := le_direntSize (cstring c.name).length
  unfold DirCall.size
  omega

theorem length_le_total (cs : List DirCall) : 24 * cs.length ≤ total DirCall.size cs :=
  mul_length_le_total DirCall.size le_size cs

theorem length_encoding (c : DirCall) : (c.encoding V D).length = c.size :=
  D.length_encode _ _ _

theorem addDirEntry_args (rc : ℕ → ℤ) (size : Num) (c : DirCall) (r : Reply) :
    addDirEntry V D rc (c.args size) r =
      let block := r.dentryBuffer.getD (V.malloc (requestedSize V size))
      let room := (requestedSize V size + 2 ^ 64 - r.dentryAccSize) % 2 ^ 64
      if c.size > room then
        let (ret, r) := reply rc (.buf []) { r with dentryBuffer := some block }
        (.ok .undefined, if ret = -1 then (reply rc (.err EIO) r).2 else r)
      else
        (.ok (.int (Integer.new c.size)), { r with
          dentryBuffer := some (writeAt block r.dentryAccSize (c.encoding V D))
          dentryAccSize := (r.dentryAccSize + c.size) % 2 ^ 64
          dentryCurLength := (r.dentryCurLength + 1) % 2 ^ 64 }) := by
  have hobject : (arg (c.args size) 2).isObject = true := c.isObject
  unfold addDirEntry
  rw [if_neg (by simp [DirCall.args]), if_neg (by simp [DirCall.args, arg, Value.isString]),
    if_neg (by simp [DirCall.args, arg, Value.isNumber]), if_neg (by rw [hobject]; decide),
    if_neg (by simp [DirCall.args, arg, Value.isNumber])]
  rfl

theorem room_of_le {size acc : ℕ} (h : acc ≤ size) (hsize : size < 2 ^ 64) :
    room size acc = size - acc := by
  unfold room
  rw [show size + 2 ^ 64 - acc = size - acc + 2 ^ 64 by omega, Nat.add_mod_right,
    Nat.mod_eq_of_lt (by omega)]

section Calls

variable {V D} (rc : ℕ → ℤ) {size : Num} {c : DirCall} {r : Reply}

theorem next_of_passed (h : room (requestedSize V size) r.dentryAccSize < c.size) :
    accepts V D rc size c r = false
      ∧ (next V D rc size c r).dentryAccSize = r.dentryAccSize
      ∧ (next V D rc size c r).dentryCurLength = r.dentryCurLength
      ∧ (next V D rc size c r).dentryBuffer = some (blockFor V size r) := by
  unfold accepts next
  rw [addDirEntry_args]
  simp only [← room.eq_def, if_pos h]
  -- a failed reply is followed by another, which changes no more than what was sent
  split_ifs
  · exact ⟨rfl, rfl, rfl, rfl⟩
  · exact ⟨rfl, rfl, rfl, rfl⟩

/-- An entry that does not fit is replied to with nothing, and with an error when that fails. -/
theorem sent_of_passed (h : room (requestedSize V size) r.dentryAccSize < c.size) :
    (next V D rc size c r).sent
      = r.sent ++ .buf [] :: if rc r.sent.length = -1 then [.err EIO] else [] := by
  unfold next
  rw [addDirEntry_args]
  simp only [← room.eq_def, if_pos h]
  have hreply := fun r' : Reply => show reply rc (.buf []) r'
    = (rc r'.sent.length, { r' with sent := r'.sent ++ [.buf []] }) from rfl
  rw [hreply]
  by_cases hrc : rc r.sent.length = -1
  · simp [hrc, reply]
  · simp [hrc]

theorem next_of_taken (h : c.size ≤ room (requestedSize V size) r.dentryAccSize) :
    accepts V D rc size c r = true
      ∧ next V D rc size c r = { r with
        dentryBuffer := some (writeAt (blockFor V size r) r.dentryAccSize (c.encoding V D))
        dentryAccSize := (r.dentryAccSize + c.size) % 2 ^ 64
        dentryCurLength := (r.dentryCurLength + 1) % 2 ^ 64 } := by
  unfold accepts next
  rw [addDirEntry_args]
  simp only [← room.eq_def, if_neg (not_lt.2 h)]
  exact ⟨rfl, rfl⟩

theorem sent_of_taken (h : c.size ≤ room (requestedSize V size) r.dentryAccSize) :
    (next V D rc size c r).sent = r.sent := by
  rw [(next_of_taken rc h).2]

end Calls

/-- The block begins with these entries, in a space of `cap` bytes. -/
structure Represents (cap : ℕ) (cs : List DirCall) (r : Reply) : Prop where
  cur : r.dentryCurLength = cs.length
  acc : r.dentryAccSize = total DirCall.size cs
  within : r.dentryAccSize ≤ cap
  block : (r.dentryBuffer = none ∧ r.dentryAccSize = 0) ∨ ∃ b, r.dentryBuffer = some b
    ∧ b.length = cap ∧ b.take r.dentryAccSize = cs.flatMap (·.encoding V D)

section Represents

variable {V D} {size : Num} {cs : List DirCall} {r : Reply} (rc : ℕ → ℤ)

theorem represents_new (cap : ℕ) : Represents V D cap [] new :=
  ⟨rfl, rfl, Nat.zero_le _, .inl ⟨rfl, rfl⟩⟩

theorem Represents.bytes {cap : ℕ} (h : Represents V D cap cs r) :
    gatheredBytes r = cs.flatMap (·.encoding V D) := by
  unfold gatheredBytes
  rcases h.block with ⟨hnone, hacc⟩ | ⟨b, hb, -, htake⟩
  · have hcs : cs = [] := by
      have hle := length_le_total cs
      rw [← h.acc, hacc] at hle
      exact List.length_eq_zero_iff.1 (by omega)
    rw [hnone, hcs]
    exact List.take_nil
  · rw [hb]
    exact htake

theorem Represents.blockFor (h : Represents V D (requestedSize V size) cs r) :
    (blockFor V size r).length = requestedSize V size
      ∧ (blockFor V size r).take r.dentryAccSize = cs.flatMap (·.encoding V D) := by
  have hbytes := h.bytes
  unfold gatheredBytes at hbytes
  unfold Reply.blockFor
  rcases h.block with ⟨hnone, hacc⟩ | ⟨b, hb, hlen, htake⟩
  · rw [hnone] at hbytes ⊢
    rw [← hbytes, hacc]
    exact ⟨V.length_malloc _, rfl⟩
  · rw [hb]
    exact ⟨hlen, htake⟩

theorem Represents.accepts_iff (h : Represents V D (requestedSize V size) cs r) (c : DirCall) :
    accepts V D rc size c r = true
      ↔ total DirCall.size cs + c.size ≤ requestedSize V size := by
  have hroom := room_of_le h.within (requestedSize_lt V size)
  have hacc := h.acc
  have hwithin := h.within
  rcases le_or_gt c.size (room (requestedSize V size) r.dentryAccSize) with hfit | hfit
  · exact iff_of_true (next_of_taken rc hfit).1 (by omega)
  · refine iff_of_false (fun haccepts => ?_) (by omega)
    rw [(next_of_passed rc hfit).1] at haccepts
    cases haccepts

theorem Represents.next (h : Represents V D (requestedSize V size) cs r) (c : DirCall) :
    Represents V D (requestedSize V size)
      (cs ++ if accepts V D rc size c r then [c] else []) (next V D rc size c r) := by
  have hroom := room_of_le h.within (requestedSize_lt V size)
  have hcap := requestedSize_lt V size
  have hacc := h.acc
  have hwithin := h.within
  obtain ⟨hlen, htake⟩ := h.blockFor
  rcases le_or_gt c.size (room (requestedSize V size) r.dentryAccSize) with hfit | hfit
  · obtain ⟨haccepts, hnext⟩ := next_of_taken (D := D) rc hfit
    have hsum : (r.dentryAccSize + c.size) % 2 ^ 64 = r.dentryAccSize + c.size :=
      Nat.mod_eq_of_lt (by omega)
    have hcount : (r.dentryCurLength + 1) % 2 ^ 64 = r.dentryCurLength + 1 := by
      have hle := length_le_total cs
      rw [h.cur]
      exact Nat.mod_eq_of_lt (by have := le_size c; omega)
    rw [haccepts, if_pos rfl, hnext]
    refine ⟨?_, ?_, ?_, .inr ⟨_, rfl, ?_, ?_⟩⟩
    · rw [List.length_append, List.length_singleton, ← h.cur]
      exact hcount
    · rw [total_append, total_cons, total_nil, ← hacc]
      exact hsum
    · exact hsum.trans_le (by omega)
    · rw [length_writeAt, hlen]
    · simp only [hsum]
      rw [List.flatMap_append, List.flatMap_singleton, ← htake, ← length_encoding V D c]
      exact take_writeAt (by rw [length_encoding, hlen]; omega)
  · obtain ⟨haccepts, hacc', hcur', hblock'⟩ := next_of_passed (D := D) rc hfit
    rw [haccepts, if_neg Bool.false_ne_true, List.append_nil]
    refine ⟨hcur'.trans h.cur, hacc'.trans h.acc, hacc'.trans_le h.within,
      .inr ⟨_, hblock', hlen, ?_⟩⟩
    rw [hacc']
    exact htake

theorem Represents.addAll : ∀ (calls : List DirCall) {cs : List DirCall} {r : Reply},
    Represents V D (requestedSize V size) cs r →
      Represents V D (requestedSize V size) (cs ++ accepted V D rc size calls r)
        (addAll V D rc size calls r)
  | [], cs, r, h => by
    rw [accepted, List.append_nil]
    exact h
  | c :: calls, cs, r, h => by
    rw [accepted, ← List.append_assoc]
    exact Represents.addAll calls (h.next rc c)

/-- The entries accepted are those that packing in order takes. -/
theorem Represents.accepted_eq : ∀ (calls : List DirCall) {cs : List DirCall} {r : Reply},
    Represents V D (requestedSize V size) cs r →
      accepted V D rc size calls r
        = taken DirCall.size (requestedSize V size) (total DirCall.size cs) calls
  | [], _, _, _ => rfl
  | c :: calls, cs, r, h => by
    have hnext := h.next rc c
    have haccepts := h.accepts_iff rc c
    rw [accepted, taken]
    rw [Represents.accepted_eq calls hnext, total_append]
    by_cases hfit : total DirCall.size cs + c.size ≤ requestedSize V size
    · rw [if_pos hfit, if_pos (haccepts.2 hfit), total_cons, total_nil, Nat.add_zero]
      rfl
    · rw [if_neg hfit, if_neg fun hc => hfit (haccepts.1 hc), total_nil, Nat.add_zero]
      rfl

end Represents

theorem eight_dvd_total (cs : List DirCall) : 8 ∣ total DirCall.size cs := by
  induction cs with
  | nil => exact Nat.dvd_zero 8
  | cons c cs ih => exact Nat.dvd_add (Nat.dvd_mul_left 8 _) ih

theorem Represents.accumulated {V : Runtime} {D : DirentFormat} {cap : ℕ} {cs : List DirCall}
    {r : Reply} (h : Represents V D cap cs r) : Accumulated V D cap cs r where
  cur := h.cur
  acc := h.acc
  aligned := h.acc ▸ eight_dvd_total cs
  within := h.within
  bytes := h.bytes

/-- After any calls with one size, accepted or not, the counters and the block are those of the
entries accepted, an entry is accepted exactly when it fits what these leave, and one that does not
fit changes nothing. -/
theorem accumulator_represents (rc : ℕ → ℤ) (S : ℕ) (hS : S < 2 ^ 63) (calls : List DirCall) :
    Accumulated V D S (accepted V D rc (.fin (S : ℤ)) calls new)
        (addAll V D rc (.fin (S : ℤ)) calls new)
      ∧ ∀ c : DirCall,
        (accepts V D rc (.fin (S : ℤ)) c (addAll V D rc (.fin (S : ℤ)) calls new) = true
            ↔ c.size ≤ S - total DirCall.size (accepted V D rc (.fin (S : ℤ)) calls new))
          ∧ (accepts V D rc (.fin (S : ℤ)) c (addAll V D rc (.fin (S : ℤ)) calls new) = false →
            Accumulated V D S (accepted V D rc (.fin (S : ℤ)) calls new)
              (next V D rc (.fin (S : ℤ)) c (addAll V D rc (.fin (S : ℤ)) calls new))) := by
  have hsize := requestedSize_natCast V hS
  have h := (represents_new (V := V) (D := D) (requestedSize V (.fin (S : ℤ)))).addAll rc calls
  rw [List.nil_append] at h
  refine ⟨?_, fun c => ⟨?_, fun hc => ?_⟩⟩
  · rw [hsize] at h
    exact h.accumulated
  · have hwithin := h.within
    rw [h.acc, hsize] at hwithin
    rw [h.accepts_iff rc c, hsize]
    omega
  · have hnext := h.next rc c
    rw [hc, if_neg Bool.false_ne_true, List.append_nil, hsize] at hnext
    exact hnext.accumulated

def entry (name : List UInt8) : DirCall := ⟨name, .object [], .fin 0, [], rfl⟩

theorem entry_represented :
    Accumulated .amd64 .linux 32 (accepted .amd64 .linux succeed (.fin ((32 : ℕ) : ℤ))
        [entry [97]] new) (addAll .amd64 .linux succeed (.fin ((32 : ℕ) : ℤ)) [entry [97]] new) :=
  (accumulator_represents .amd64 .linux succeed 32 (by decide) [entry [97]]).1

section Safe

variable (rc : ℕ → ℤ)

theorem safeCall_iff {r : Reply} {x : Num × DirCall} {space : ℕ}
    (hblock : (blockFor V x.1 r).length = space) (hacc : r.dentryAccSize ≤ space) :
    SafeCall V D rc r x ↔ Inside space r.dentryAccSize (request V x) := by
  have hlt := requestedSize_lt V x.1
  refine ⟨fun h => ?_, fun h => ?_⟩
  · have hroom := room_of_le h.no_wrap hlt
    have hin := h.in_block
    rw [hroom, hblock] at hin
    refine ⟨h.no_wrap, fun hfit => ?_⟩
    have hle := h.no_wrap
    simp only [request] at hfit ⊢
    have := hin (by omega)
    omega
  · obtain ⟨hle, hin⟩ := h
    simp only [request] at hle hin
    have hroom := room_of_le hle hlt
    refine ⟨hle, fun hfit => ?_, ?_⟩
    · rw [hroom] at hfit ⊢
      rw [hblock]
      have := hin (by omega)
      omega
    · rw [hblock]
      rcases le_or_gt x.2.size (room (requestedSize V x.1) r.dentryAccSize) with hfit | hfit
      · have hspace := hin (by omega)
        rw [(next_of_taken (D := D) rc hfit).2]
        exact (Nat.mod_le _ _).trans (by omega)
      · rw [(next_of_passed (D := D) rc hfit).2.1]
        exact hacc

/-- The block has its size for good, and so much is gathered in it. -/
structure Holds (space : ℕ) (r : Reply) (used : ℕ) : Prop where
  acc : r.dentryAccSize = used
  within : r.dentryAccSize ≤ space
  block : ∃ b, r.dentryBuffer = some b ∧ b.length = space

theorem holds_next {r : Reply} {x : Num × DirCall} {space : ℕ}
    (hblock : (blockFor V x.1 r).length = space) (h : SafeCall V D rc r x) :
    Option.Rel (Holds space) (step V D rc r x) (offer r.dentryAccSize (request V x)) := by
  have hlt := requestedSize_lt V x.1
  have hroom := room_of_le h.no_wrap hlt
  have hle := h.no_wrap
  have hspace := h.acc_le
  rw [hblock] at hspace
  refine .some ⟨?_, hspace, ?_⟩
  · rcases le_or_gt x.2.size (room (requestedSize V x.1) r.dentryAccSize) with hfit | hfit
    · rw [(next_of_taken (D := D) rc hfit).2, request, if_pos (by omega)]
      exact Nat.mod_eq_of_lt (by omega)
    · rw [(next_of_passed (D := D) rc hfit).2.1, request, if_neg (by omega)]
  · rcases le_or_gt x.2.size (room (requestedSize V x.1) r.dentryAccSize) with hfit | hfit
    · rw [(next_of_taken (D := D) rc hfit).2]
      exact ⟨_, rfl, (length_writeAt _ _ _).trans hblock⟩
    · exact ⟨_, (next_of_passed (D := D) rc hfit).2.2.2, hblock⟩

theorem Holds.blockFor {space used : ℕ} {r : Reply} (h : Holds space r used) (size : Num) :
    (blockFor V size r).length = space := by
  obtain ⟨b, hb, hlen⟩ := h.block
  rw [Reply.blockFor, hb]
  exact hlen

theorem safe_iff_of_holds {space used : ℕ} {r : Reply} (h : Holds space r used)
    (calls : List (Num × DirCall)) :
    Runs.Along (step V D rc) (SafeCall V D rc) r calls
      ↔ Runs.Along offer (Inside space) used (calls.map (request V)) := by
  refine Runs.along_iff_along (R := Holds space) (fun r used x hr => ?_)
    (fun r used x hr hsafe => ?_) h
  · rw [← hr.acc]
    exact safeCall_iff V D rc (hr.blockFor V x.1) hr.within
  · rw [← hr.acc]
    exact holds_next V D rc (hr.blockFor V x.1) hsafe

theorem safe_cons_iff (first : Num × DirCall) (calls : List (Num × DirCall)) :
    Runs.Along (step V D rc) (SafeCall V D rc) new (first :: calls)
      ↔ Runs.Along offer (Inside (requestedSize V first.1)) 0
        ((first :: calls).map (request V)) := by
  have hblock : (blockFor V first.1 new).length = requestedSize V first.1 := V.length_malloc _
  rw [List.map_cons, Runs.along_cons _ rfl, Runs.along_cons _ rfl,
    safeCall_iff V D rc hblock (Nat.zero_le _)]
  refine and_congr_right fun hinside => ?_
  have hholds := holds_next V D rc hblock
    ((safeCall_iff V D rc hblock (Nat.zero_le _)).2 hinside)
  cases hholds with
  | some hholds => exact safe_iff_of_holds V D rc hholds calls

/-- The writes of any calls stay in the block exactly as long as no call asks for less than the
entries taken so far, and none that has its entry taken asks for more than the first call did. -/
theorem safe_iff (calls : List (Num × DirCall)) :
    Runs.Along (step V D rc) (SafeCall V D rc) new calls
      ↔ ∀ first ∈ calls.head?,
        Runs.Along offer (Inside (requestedSize V first.1)) 0 (calls.map (request V)) := by
  rcases calls with _ | ⟨first, calls⟩
  · exact iff_of_true trivial fun x hx => by cases hx
  · rw [safe_cons_iff]
    simp only [List.head?_cons, Option.mem_some_iff, forall_eq']

/-- Calls with one size, as both filesystems of the repository make them, stay in the block. -/
theorem safe_of_same_size (size : Num) (calls : List DirCall) :
    Runs.Along (step V D rc) (SafeCall V D rc) new (calls.map fun c => (size, c)) := by
  rcases calls with _ | ⟨c, calls⟩
  · exact trivial
  · rw [List.map_cons, safe_cons_iff, ← List.map_cons (f := fun c => (size, c)), List.map_map]
    exact along_inside_of_const DirCall.size _ (c :: calls) (Nat.zero_le _)

end Safe

/-- A second call that asks for more than the first lets libfuse write past the block. -/
theorem growing_size_overflows :
    ¬ Runs.Along (step .amd64 .linux succeed) (SafeCall .amd64 .linux succeed) new
      [(.fin 32, entry [97]), (.fin 4096, entry [98])] := by
  intro h
  have hfirst : requestedSize .amd64 (.fin 32) = 32 :=
    requestedSize_natCast .amd64 (n := 32) (by decide)
  have hsecond : requestedSize .amd64 (.fin 4096) = 4096 :=
    requestedSize_natCast .amd64 (n := 4096) (by decide)
  have hblock : (blockFor .amd64 (.fin 32) new).length = 32 :=
    (Runtime.amd64.length_malloc _).trans hfirst
  obtain ⟨hsafe, hrest⟩ := (Runs.along_cons _ rfl).1 h
  have hholds := holds_next _ _ _ hblock hsafe
  have hrequest : request .amd64 (.fin 32, entry [97]) = (32, 32) := Prod.ext hfirst rfl
  rw [hrequest] at hholds
  cases hholds with
  | some hholds =>
    obtain ⟨hcall, -⟩ := (Runs.along_cons _ rfl).1 hrest
    have hinside := (safeCall_iff _ _ _ (hholds.blockFor _ _) hholds.within).1 hcall
    have hrequest' : request .amd64 (.fin 4096, entry [98]) = (4096, 32) := Prod.ext hsecond rfl
    rw [hholds.acc, hrequest'] at hinside
    exact absurd hinside (by decide)

end NodeFuse.Reply
