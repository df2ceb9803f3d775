import NodeFuse.Loopback
import NodeFuse.Proofs.NodeFsCalls

/-!
# What Loopback replies

Loopback sends exactly one reply, except where it finds no `Reply` or its four entries do not fit
(`sent_once_iff`). Its `readdir` starts over at every offset, so whoever reads the directory until
there is nothing more never gets there (`endless`).
-/

namespace NodeFuse.Loopback

open NodeFs (numberAt accepts_err overflows overflows_eq_zero_iff length_sent_of_represents entryOf
  decode_encodings cstring_eq_self)
open Packing Throwing
open Reply (arg addAll answer head_answer buffer buffer_sent requestedSize represents_new succeed DirCall)
open ReplyMethods (Method call_of_accepts send_eq)

variable (V : Platform) (D : DirentFormat) (rc : ℕ → ℤ)

theorem length_sent_method {argv : List Value} {place : ℕ} {req : VoidPtr}
    (hreply : arg argv place = .reply req) {m : Method} {args : List Value} (h : m.Accepts args)
    (r : Reply) :
    (final (method V rc argv place m args) r).sent.length = r.sent.length + 1 := by
  obtain ⟨msg, hcall⟩ := call_of_accepts V rc h r
  have hsent : ∀ result r', m.call V rc args r = some (result, r') →
      r'.sent = r.sent ++ [msg] := by
    intro result r' hr'
    rw [hcall, send_eq] at hr'
    split_ifs at hr'
    · cases hr'
      rfl
    · cases hr'
      rfl
  unfold method final
  simp only [hreply]
  rcases hcall' : m.call V rc args r with _ | ⟨_ | _, r'⟩
  · rw [hcall, send_eq] at hcall'
    cases hcall'
  · rw [hsent _ _ hcall', List.length_append, List.length_singleton]
  · rw [hsent _ _ hcall', List.length_append, List.length_singleton]

theorem length_sent_err {argv : List Value} {place : ℕ} {req : VoidPtr}
    (hreply : arg argv place = .reply req) {code : ℤ} (h : -2 ^ 31 ≤ code ∧ code < 2 ^ 31) :
    (final (err V rc argv place code) .new).sent.length = 1 :=
  length_sent_method V rc hreply (accepts_err h) .new

theorem entries_valid : ∀ entry ∈ entries, EntryName entry.utf8 := by
  intro entry h
  have hcases : entry = ['.'] ∨ entry = ['.', '.'] ∨ entry = "dir1".toList
      ∨ entry = "dir2".toList := by simpa [entries] using h
  rcases hcases with rfl | rfl | rfl | rfl
  · exact ⟨by decide, by decide, by decide, by decide⟩
  · exact ⟨by decide, by decide, by decide, by decide⟩
  · exact ⟨by decide, by decide, by decide, by decide⟩
  · exact ⟨by decide, by decide, by decide, by decide⟩

theorem calls_names (offset : ℤ) :
    (calls offset).map DirCall.name = entries.map JsString.utf8 := by
  have hfst : entries.zipIdx.map Prod.fst = entries := List.zipIdx_map_fst 0 entries
  conv_rhs => rw [← hfst]
  unfold calls
  rw [List.map_map, List.map_map]
  rfl

theorem name_of_call (offset : ℤ) : ∀ c ∈ calls offset, EntryName c.name := by
  intro c hc
  have hmem : c.name ∈ entries.map JsString.utf8 := by
    rw [← calls_names offset]
    exact List.mem_map_of_mem hc
  obtain ⟨entry, hentry, heq⟩ := List.mem_map.1 hmem
  exact heq ▸ entries_valid entry hentry

theorem total_calls (offset : ℤ) : total DirCall.size (calls offset) = entriesSize := by
  have hsize : ∀ c ∈ calls offset, c.size = direntSize c.name.length := by
    intro c hc
    unfold DirCall.size
    rw [cstring_eq_self (name_of_call offset c hc)]
  have hnames := congrArg (List.map fun name => direntSize name.length) (calls_names offset)
  rw [List.map_map, List.map_map] at hnames
  unfold entriesSize
  rw [total_eq_map, total_eq_map _ entries, List.map_congr_left hsize]
  exact congrArg (total id) hnames

theorem final_readdir {argv : List Value} {size offset : ℤ} {req : VoidPtr}
    (hsize : numberAt argv 2 = some size) (hoffset : numberAt argv 3 = some offset)
    (hreply : arg argv 5 = .reply req) (r : Reply) :
    final (readdir V D rc argv) r = (buffer V.toRuntime rc [.buffer []]
      (addAll V.toRuntime D rc (.fin size) (calls offset) r)).2 := by
  unfold readdir
  rw [hsize, hoffset, hreply]
  rfl

theorem numberAt_int {argv : List Value} {i : ℕ} {n : ℤ} (h : arg argv i = .int n) :
    numberAt argv i = some n := by
  unfold numberAt
  rw [h]
  exact if_pos (Rat.den_intCast n)

theorem replies_readDir (S : Session) (m : Mem) (req : VoidPtr) (ino size : UInt64) (off : Int64)
    (fi : VoidPtr) :
    replies V D rc ((Request.readDir req ino size off fi).invocation S m)
      = answer V.toRuntime D rc (.fin (Integer.new size.toNat))
        (calls (Integer.new off.toInt)) [] := by
  set argv := ((Request.readDir req ino size off fi).invocation S m).argv
  have hsize : numberAt argv 2 = some (Integer.new size.toNat) := numberAt_int rfl
  have hoffset : numberAt argv 3 = some (Integer.new off.toInt) := numberAt_int rfl
  have hreply : arg argv 5 = .reply req := rfl
  exact congrArg Reply.sent (final_readdir V D rc hsize hoffset hreply .new)

/-- The entries of a reply that carries all of them. -/
theorem decode_calls (offset : ℤ) :
    D.decode ((calls offset).flatMap (·.encoding V.toRuntime D))
        = (calls offset).map (entryOf V.toRuntime)
      ∧ ((calls offset).map (entryOf V.toRuntime)).map Entry.name = entries.map JsString.utf8 := by
  have hself : ∀ c ∈ calls offset, cstring c.name = c.name :=
    fun c hc => cstring_eq_self (name_of_call offset c hc)
  refine ⟨decode_encodings V.toRuntime D _ fun c hc => ?_, ?_⟩
  · rw [hself c hc]
    exact name_of_call offset c hc
  · rw [← calls_names offset, List.map_map]
    exact List.map_congr_left hself

/-- However libfuse takes it, an entry that does not fit is a reply of its own. -/
theorem length_answer (size : Num) (cs : List DirCall) :
    (answer V.toRuntime D rc size cs []).length
      = overflows rc (passed DirCall.size (requestedSize V.toRuntime size) 0 cs).length 0 + 1 := by
  have hsent := length_sent_of_represents D V.toRuntime rc cs
    (represents_new (V := V.toRuntime) (D := D) (requestedSize V.toRuntime size))
  rw [total_nil] at hsent
  unfold answer
  rw [buffer_sent, List.length_append, List.length_singleton, hsent]
  rfl

theorem length_replies_readDir (S : Session) (m : Mem) (req : VoidPtr) (ino size : UInt64)
    (off : Int64) (fi : VoidPtr) :
    (replies V D rc ((Request.readDir req ino size off fi).invocation S m)).length
      = overflows rc (passed DirCall.size
        (requestedSize V.toRuntime (.fin (Integer.new size.toNat))) 0
        (calls (Integer.new off.toInt))).length 0 + 1 := by
  rw [replies_readDir, length_answer]

theorem overflows_eq_zero_iff_fits (S : Num) (offset : ℤ) :
    overflows rc (passed DirCall.size (requestedSize V.toRuntime S) 0 (calls offset)).length 0 = 0
      ↔ entriesSize ≤ requestedSize V.toRuntime S := by
  rw [overflows_eq_zero_iff, List.length_eq_zero_iff, passed_eq_nil_iff _ _ _ (Nat.zero_le _),
    zero_add, total_calls]

section Kernel

variable (S : Session) (m : Mem) (req : VoidPtr) (ino : UInt64) (fi : VoidPtr) (size : UInt64)

theorem entriesIn_of_head {sent : List FuseReply} {bytes : List UInt8}
    (h : sent.head? = some (.buf bytes)) : entriesIn D sent = D.decode bytes := by
  rcases sent with _ | ⟨first, rest⟩
  · cases h
  · cases h
    rfl

/-- The kernel reads all four entries, or none if they do not fit together. -/
theorem entriesIn_replies (off : Int64) :
    (entriesIn D (replies V D succeed
      ((Request.readDir req ino size off fi).invocation S m))).map Entry.name
      = if entriesSize ≤ requestedSize V.toRuntime (.fin (Integer.new size.toNat))
        then entries.map JsString.utf8 else [] := by
  obtain ⟨hdecode, hnames⟩ := decode_calls V D (Integer.new off.toInt)
  have hhead := head_answer V.toRuntime D succeed (.fin (Integer.new size.toNat))
    (calls (Integer.new off.toInt))
  rw [total_calls, ← replies_readDir V D succeed S m req ino size off fi] at hhead
  split_ifs with hfits
  · rw [if_neg (not_lt.2 hfits)] at hhead
    rw [entriesIn_of_head D hhead, hdecode, hnames]
  · rw [if_pos (not_le.1 hfits)] at hhead
    rw [entriesIn_of_head D hhead, D.decode_nil, List.map_nil]

theorem received_succ (n : ℕ) (off : Int64) :
    received V D S m req ino fi size (n + 1) off
      = entriesIn D (replies V D succeed ((Request.readDir req ino size off fi).invocation S m))
        ++ (entriesIn D (replies V D succeed
            ((Request.readDir req ino size off fi).invocation S m))).getLast?.elim []
          fun last => received V D S m req ino fi size n last.off := rfl

/-- However often the directory is read on, its four entries come once more each time, or, where they
do not fit in a reply, nothing comes at all: the reading never ends, or ends at once. -/
theorem endless (n : ℕ) (off : Int64) :
    (received V D S m req ino fi size n off).map Entry.name
      = if entriesSize ≤ requestedSize V.toRuntime (.fin (Integer.new size.toNat))
        then (List.replicate n (entries.map JsString.utf8)).flatten else [] := by
  induction n generalizing off with
  | zero => simp [received]
  | succ n ih =>
    have hnames := entriesIn_replies V D S m req ino fi size off
    rw [received_succ]
    generalize entriesIn D (replies V D succeed
      ((Request.readDir req ino size off fi).invocation S m)) = es at hnames ⊢
    split_ifs at hnames ih ⊢ with hfits
    · rcases hlast : es.getLast? with _ | last
      · rw [List.getLast?_eq_none_iff.1 hlast] at hnames
        simp [entries] at hnames
      · rw [Option.elim_some, List.map_append, hnames, ih, List.replicate_succ, List.flatten_cons]
    · rw [List.map_eq_nil_iff.1 hnames]
      rfl

end Kernel

theorem accepts_entry : Method.entry.Accepts [entryObject] := ⟨rfl, rfl⟩

theorem accepts_attr : Method.attr.Accepts [attrsObject, .int 1000] := ⟨rfl, fun _ => rfl⟩

theorem accepts_open (fi : FuseFileInfo) : Method.open.Accepts [.fileInfo fi] := rfl

theorem accepts_buffer (bytes : List UInt8) : Method.buffer.Accepts [.buffer bytes] := rfl

theorem accepts_write (count : ℤ) : Method.write.Accepts [.int count] := rfl

theorem accepts_statfs : Method.statfs.Accepts [statvfs] := rfl

theorem length_replies_of_overflows (S : Session) (m : Mem) {r : Request} (h : Overflows V r) :
    1 < (replies V D rc (r.invocation S m)).length := by
  cases r with
  | readDir req ino size off fi =>
    have hnone := overflows_eq_zero_iff_fits V rc (.fin (Integer.new size.toNat))
      (Integer.new off.toInt)
    have hlt : requestedSize V.toRuntime (.fin (Integer.new size.toNat)) < entriesSize := h
    rw [length_replies_readDir]
    omega
  | _ => cases h

theorem length_replies_of_findsNoReply (S : Session) (m : Mem) {r : Request}
    (h : FindsNoReply r) : (replies V D rc (r.invocation S m)).length = 0 := by
  cases r with
  | init | destroy | setXAttr | getXAttr | bMap => rfl
  | _ => cases h

theorem length_replies_of_fits (S : Session) (m : Mem) {r : Request} (hreply : ¬ FindsNoReply r)
    (hfits : ¬ Overflows V r) : (replies V D rc (r.invocation S m)).length = 1 := by
  cases r with
  | init | destroy | setXAttr | getXAttr | bMap => exact absurd trivial hreply
  | readDir req ino size off fi =>
    have hle : entriesSize ≤ requestedSize V.toRuntime (.fin (Integer.new size.toNat)) :=
      not_lt.1 hfits
    rw [length_replies_readDir, (overflows_eq_zero_iff_fits V rc _ _).2 hle]
  | lookup => exact length_sent_method V rc rfl accepts_entry .new
  | getAttr => exact length_sent_method V rc rfl accepts_attr .new
  | «open» | openDir => exact length_sent_method V rc rfl (accepts_open _) .new
  | read => exact length_sent_method V rc rfl (accepts_buffer _) .new
  | write => exact length_sent_method V rc rfl (accepts_write _) .new
  | statFs => exact length_sent_method V rc rfl accepts_statfs .new
  | setAttr | readLink | mkNod | mkDir | unlink | rmDir | symLink | rename | link | flush | release
  | fSync | releaseDir | fSyncDir | listXAttr | removeXAttr | access | create | getLock | setLock =>
    exact length_sent_err V rc rfl (by decide)

/-- Loopback sends exactly one reply to a request, but for these: to `init` and `destroy`, to `setxattr`
and `getxattr`, whose `Reply` is not where they look for it, and to `bmap`, which `Reply` does not have,
it sends none, and to a directory read whose entries do not fit, more than one. -/
theorem sent_once_iff (S : Session) (m : Mem) (r : Request) :
    ((replies V D rc (r.invocation S m)).length = 1 ↔ ¬ FindsNoReply r ∧ ¬ Overflows V r)
      ∧ (FindsNoReply r → (replies V D rc (r.invocation S m)).length = 0)
      ∧ (Overflows V r → 1 < (replies V D rc (r.invocation S m)).length) := by
  have hnone := length_replies_of_findsNoReply V D rc S m (r := r)
  have hmore := length_replies_of_overflows V D rc S m (r := r)
  refine ⟨⟨fun h => ⟨fun hn => ?_, fun ho => ?_⟩, fun h => ?_⟩, hnone, hmore⟩
  · have := hnone hn
    omega
  · have := hmore ho
    omega
  · exact length_replies_of_fits V D rc S m h.1 h.2

end NodeFuse.Loopback
