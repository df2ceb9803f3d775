import NodeFuse.Proofs.Accumulator

/-!
# What a directory read is answered with

With one size in all calls, `AddDirEntry` packs the entries in order and passes over those that do
not fit, each time with an empty reply (`Gathered`). The block therefore holds what was taken, and
`Buffer` replies once more (`answer_eq`).
-/

namespace NodeFuse.Reply

open Packing

variable (V : Runtime) (D : DirentFormat)

/-- After `cs` with room for `cap` bytes, the block holds the entries taken, and each of the others
was replied to. -/
structure Gathered (cap : ℕ) (cs : List DirCall) (r : Reply) : Prop where
  acc : r.dentryAccSize = total DirCall.size (taken DirCall.size cap 0 cs)
  cur : r.dentryCurLength = (taken DirCall.size cap 0 cs).length
  block : (r.dentryBuffer = none ∧ r.dentryAccSize = 0) ∨ ∃ b, r.dentryBuffer = some b
    ∧ b.length = cap
    ∧ b.take r.dentryAccSize = (taken DirCall.size cap 0 cs).flatMap (·.encoding V D)
  sent : r.sent = List.replicate (passed DirCall.size cap 0 cs).length (.buf [])

theorem gathered_new (cap : ℕ) : Gathered V D cap [] new :=
  ⟨rfl, rfl, .inl ⟨rfl, rfl⟩, rfl⟩

theorem Gathered.represents {cap : ℕ} {cs : List DirCall} {r : Reply}
    (h : Gathered V D cap cs r) : Represents V D cap (taken DirCall.size cap 0 cs) r := by
  refine ⟨h.cur, h.acc, ?_, h.block⟩
  have hle := taken_le DirCall.size cap cs (Nat.zero_le _)
  rw [h.acc]
  omega

theorem gathered_step {size : Num} {cs : List DirCall} {r : Reply}
    (h : Gathered V D (requestedSize V size) cs r) (c : DirCall) :
    Gathered V D (requestedSize V size) (cs ++ [c])
      (addDirEntry V D succeed (c.args size) r).2 := by
  have hrepresents := Gathered.represents V D h
  have haccepts := hrepresents.accepts_iff succeed c
  have hnext := hrepresents.next succeed c
  have hwithin := hrepresents.within
  have hroom := room_of_le hwithin (requestedSize_lt V size)
  rw [hrepresents.acc] at hwithin hroom
  by_cases hfit : total DirCall.size (taken DirCall.size (requestedSize V size) 0 cs) + c.size
      ≤ requestedSize V size
  · have htaken : taken DirCall.size (requestedSize V size) 0 (cs ++ [c])
        = taken DirCall.size (requestedSize V size) 0 cs ++ [c] := by
      rw [taken_concat, zero_add, if_pos hfit]
    rw [haccepts.2 hfit, if_pos rfl, ← htaken] at hnext
    refine ⟨hnext.acc, hnext.cur, hnext.block, ?_⟩
    have hroom' : c.size ≤ room (requestedSize V size) r.dentryAccSize := by
      rw [hrepresents.acc]
      omega
    have hsent : (next V D succeed size c r).sent = r.sent := sent_of_taken succeed hroom'
    rw [passed_concat, zero_add, if_pos hfit, List.append_nil, ← h.sent]
    exact hsent
  · have htaken : taken DirCall.size (requestedSize V size) 0 (cs ++ [c])
        = taken DirCall.size (requestedSize V size) 0 cs := by
      rw [taken_concat, zero_add, if_neg hfit, List.append_nil]
    rw [if_neg fun hc => hfit (haccepts.1 hc), List.append_nil, ← htaken] at hnext
    refine ⟨hnext.acc, hnext.cur, hnext.block, ?_⟩
    rw [passed_concat, zero_add, if_neg hfit, List.length_append, List.length_singleton,
      List.replicate_succ', ← h.sent]
    exact sent_of_passed (D := D) succeed (by rw [hrepresents.acc]; omega)

theorem addAll_cons (rc : ℕ → ℤ) (size : Num) (c : DirCall) (cs : List DirCall) (r : Reply) :
    addAll V D rc size (c :: cs) r
      = addAll V D rc size cs (addDirEntry V D rc (c.args size) r).2 := rfl

theorem gathered_addAll (size : Num) : ∀ (cs done : List DirCall) (r : Reply),
    Gathered V D (requestedSize V size) done r →
      Gathered V D (requestedSize V size) (done ++ cs) (addAll V D succeed size cs r)
  | [], done, r, h => by
    rw [List.append_nil]
    exact h
  | c :: cs, done, r, h => by
    rw [show done ++ c :: cs = (done ++ [c]) ++ cs by simp]
    exact gathered_addAll size cs _ _ (gathered_step V D h c)

theorem buffer_sent (rc : ℕ → ℤ) (b : List UInt8) (r : Reply) :
    (buffer V rc [.buffer b] r).2.sent = r.sent ++ [.buf (if 0 < r.dentryAccSize
      then (r.dentryBuffer.getD []).take r.dentryAccSize else b)] := by
  unfold buffer
  rw [if_neg (by simp)]
  simp only [arg, List.getD_cons_zero, Value.buffer?, reply]
  by_cases h : rc r.sent.length = -1
  · simp [h]
  · simp [h]

/-- A directory read is answered once for every entry passed over, with nothing, and once with the
entries taken, or with the argument of `buffer` if there are none. -/
theorem answer_eq (size : Num) (cs : List DirCall) (b : List UInt8) :
    answer V D succeed size cs b
      = List.replicate (passed DirCall.size (requestedSize V size) 0 cs).length (.buf [])
        ++ [.buf (if taken DirCall.size (requestedSize V size) 0 cs = [] then b
          else (taken DirCall.size (requestedSize V size) 0 cs).flatMap (·.encoding V D))] := by
  have h := gathered_addAll V D size cs [] new (gathered_new V D _)
  rw [List.nil_append] at h
  unfold answer
  rw [buffer_sent, h.sent]
  by_cases htaken : taken DirCall.size (requestedSize V size) 0 cs = []
  · have hacc : ¬ 0 < (addAll V D succeed size cs new).dentryAccSize := by
      rw [h.acc, htaken]
      exact lt_irrefl 0
    rw [if_neg hacc, if_pos htaken]
  · have hacc : 0 < (addAll V D succeed size cs new).dentryAccSize := by
      have hle := length_le_total (taken DirCall.size (requestedSize V size) 0 cs)
      have := List.length_pos_iff.2 htaken
      rw [h.acc]
      omega
    rw [if_pos hacc, if_neg htaken]
    rcases h.block with ⟨-, h0⟩ | ⟨block, hblock, -, htake⟩
    · omega
    · rw [hblock]
      exact congrArg (fun x => _ ++ [FuseReply.buf x]) htake

/-- A directory read is answered exactly once exactly when its entries fit together. -/
theorem answered_once_iff (S : ℕ) (hS : S < 2 ^ 63) (cs : List DirCall) (b : List UInt8) :
    (answer V D succeed (.fin (S : ℤ)) cs b).length = 1 ↔ total DirCall.size cs ≤ S := by
  rw [answer_eq, List.length_append, List.length_replicate, List.length_singleton,
    Nat.add_eq_right, List.length_eq_zero_iff,
    passed_eq_nil_iff DirCall.size _ cs (Nat.zero_le _), zero_add, requestedSize_natCast V hS]

theorem two_entries_answered_once :
    (answer .amd64 .linux succeed (.fin ((64 : ℕ) : ℤ)) [entry [97], entry [98]] []).length = 1 :=
  (answered_once_iff .amd64 .linux 64 (by decide) [entry [97], entry [98]] []).2 (by decide)

/-- Two entries of 32 bytes in a read of 32 bytes are answered twice. -/
theorem two_entries_answered_twice :
    (answer .amd64 .linux succeed (.fin 32) [entry [97], entry [98]] []).length = 2 := by
  have hsize : requestedSize .amd64 (.fin 32) = 32 :=
    requestedSize_natCast .amd64 (n := 32) (by decide)
  rw [answer_eq, hsize]
  decide

theorem passed_ne_nil_iff (size : Num) (cs : List DirCall) :
    passed DirCall.size (requestedSize V size) 0 cs ≠ []
      ↔ requestedSize V size < total DirCall.size cs := by
  rw [Ne, passed_eq_nil_iff DirCall.size _ cs (Nat.zero_le _), zero_add, not_le]

/-- Whether the replies are sent does not matter to the first. -/
theorem head_sent_of_represents (rc : ℕ → ℤ) {size : Num} : ∀ (calls : List DirCall)
    {cs : List DirCall} {r : Reply}, Represents V D (requestedSize V size) cs r →
      (addAll V D rc size calls r).sent.head? = r.sent.head?.or
        (if passed DirCall.size (requestedSize V size) (total DirCall.size cs) calls = [] then none
        else some (.buf []))
  | [], _, r, _ => by
    rw [passed, if_pos rfl, Option.or_none]
    rfl
  | c :: calls, cs, r, h => by
    have hnext := h.next rc c
    have haccepts := h.accepts_iff rc c
    have hroom := room_of_le h.within (requestedSize_lt V size)
    have hwithin := h.within
    rw [h.acc] at hroom hwithin
    rw [addAll_cons]
    by_cases hfit : total DirCall.size cs + c.size ≤ requestedSize V size
    · rw [haccepts.2 hfit, if_pos rfl] at hnext
      have hsent : (addDirEntry V D rc (c.args size) r).2.sent = r.sent :=
        sent_of_taken rc (by rw [h.acc]; omega)
      have htotal : total DirCall.size (cs ++ [c]) = total DirCall.size cs + c.size := by
        rw [total_append, total_cons, total_nil, Nat.add_zero]
      rw [passed, if_pos hfit, ← htotal, ← hsent]
      exact head_sent_of_represents rc calls hnext
    · rw [if_neg fun hc => hfit (haccepts.1 hc), List.append_nil] at hnext
      have hsent : (addDirEntry V D rc (c.args size) r).2.sent.head?
          = r.sent.head?.or (some (.buf [])) := by
        rw [show (addDirEntry V D rc (c.args size) r).2 = next V D rc size c r from rfl,
          sent_of_passed rc (by rw [h.acc]; omega), List.head?_append]
        rfl
      have ih := head_sent_of_represents rc calls hnext
      rw [show next V D rc size c r = (addDirEntry V D rc (c.args size) r).2 from rfl, hsent,
        Option.or_assoc] at ih
      rw [passed, if_neg hfit, if_neg (List.cons_ne_nil _ _), ih]
      rfl

theorem head_sent_addAll (rc : ℕ → ℤ) (size : Num) (cs : List DirCall) :
    (addAll V D rc size cs new).sent.head?
      = if requestedSize V size < total DirCall.size cs then some (.buf []) else none := by
  have hhead := head_sent_of_represents V D rc cs
    (represents_new (V := V) (D := D) (requestedSize V size))
  have hiff := passed_ne_nil_iff V size cs
  rw [hhead]
  by_cases hover : requestedSize V size < total DirCall.size cs
  · rw [if_pos hover, total_nil, if_neg (hiff.2 hover)]
    rfl
  · rw [if_neg hover, total_nil, if_pos (by_contra fun hne => hover (hiff.1 hne))]
    rfl

/-- The first reply is empty when the entries do not fit together, and else carries all of them. -/
theorem head_answer (rc : ℕ → ℤ) (size : Num) (cs : List DirCall) :
    (answer V D rc size cs []).head?
      = if requestedSize V size < total DirCall.size cs then some (.buf [])
        else some (.buf (cs.flatMap (·.encoding V D))) := by
  have hhead := head_sent_addAll V D rc size cs
  unfold answer
  rw [buffer_sent, List.head?_append, hhead]
  by_cases hover : requestedSize V size < total DirCall.size cs
  · rw [if_pos hover, if_pos hover]
    rfl
  · have hnew := represents_new (V := V) (D := D) (requestedSize V size)
    have htaken := hnew.accepted_eq rc cs
    rw [total_nil, taken_of_fits DirCall.size _ cs (by omega)] at htaken
    have hbytes := (hnew.addAll rc cs).bytes
    rw [List.nil_append, htaken] at hbytes
    unfold gatheredBytes at hbytes
    rw [if_neg hover, if_neg hover, Option.none_or, List.head?_cons, ← hbytes]
    split_ifs with hacc
    · rfl
    · rw [Nat.eq_zero_of_not_pos hacc, List.take_zero]

theorem encoding_ne_nil (c : DirCall) : c.encoding V D ≠ [] := by
  have hlen := length_encoding V D c
  have := le_size c
  intro hnil
  rw [hnil, List.length_nil] at hlen
  omega

theorem flatMap_encoding_eq_nil_iff (cs : List DirCall) :
    cs.flatMap (·.encoding V D) = [] ↔ cs = [] := by
  rcases cs with _ | ⟨c, cs⟩
  · exact iff_of_true rfl rfl
  · refine iff_of_false (fun h => ?_) (List.cons_ne_nil c cs)
    rw [List.flatMap_cons, List.append_eq_nil_iff] at h
    exact encoding_ne_nil V D c h.1

/-- The first reply to a directory read carries the longest stretch of entries that fits exactly when
all entries fit together or not even the first does. -/
theorem first_reply_longest_iff (S : ℕ) (hS : S < 2 ^ 63) (cs : List DirCall) :
    (answer V D succeed (.fin (S : ℤ)) cs []).head? = some (.buf
        ((cs.take (fitCount DirCall.size S cs)).flatMap (·.encoding V D)))
      ↔ total DirCall.size cs ≤ S ∨ ∀ c, cs.head? = some c → S < c.size := by
  rw [head_answer, requestedSize_natCast V hS]
  by_cases hover : S < total DirCall.size cs
  · have hne : cs ≠ [] := by
      intro hnil
      rw [hnil] at hover
      exact absurd hover (Nat.not_lt_zero _)
    rw [if_pos hover, Option.some.injEq, FuseReply.buf.injEq, eq_comm,
      flatMap_encoding_eq_nil_iff, List.take_eq_nil_iff, ← fitCount_eq_zero_iff DirCall.size]
    refine ⟨fun h => ?_, fun h => ?_⟩
    · rcases h with h | h
      · exact .inr h
      · exact absurd h hne
    · rcases h with h | h
      · omega
      · exact .inl h
  · rw [if_neg hover, fitCount_of_fits DirCall.size _ (not_lt.1 hover), List.take_length]
    exact iff_of_true rfl (.inl (not_lt.1 hover))

theorem first_reply_of_two :
    (answer .amd64 .linux succeed (.fin ((64 : ℕ) : ℤ)) [entry [97], entry [98]] []).head?
      = some (.buf (([entry [97], entry [98]].take
        (fitCount DirCall.size 64 [entry [97], entry [98]])).flatMap (·.encoding .amd64 .linux))) :=
  (first_reply_longest_iff .amd64 .linux 64 (by decide) [entry [97], entry [98]]).2
    (.inl (by decide))

/-- The first of the two entries fits in 32 bytes, and the first reply drops it. -/
theorem first_entry_dropped :
    fitCount DirCall.size 32 [entry [97], entry [98]] = 1
      ∧ (answer .amd64 .linux succeed (.fin 32) [entry [97], entry [98]] []).head?
        ≠ some (.buf ((entry [97]).encoding .amd64 .linux)) := by
  have hsize : requestedSize .amd64 (.fin 32) = 32 :=
    requestedSize_natCast .amd64 (n := 32) (by decide)
  rw [answer_eq, hsize]
  refine ⟨by decide, fun h => encoding_ne_nil .amd64 .linux (entry [97]) ?_⟩
  exact (FuseReply.buf.inj (Option.some.inj h)).symm

end NodeFuse.Reply
