import NodeFuse.Proofs.Fields
import NodeFuse.Proofs.Receive
import NodeFuse.Proofs.ReplyMethods

/-!
# The writable properties as registers

`direct_io` and `keep_cache` are registers as they read, and the handle is one as it is stored; it
reads through `Integer::New`. `nonseekable` is compiled out for the version of the build.
-/

namespace NodeFuse.FileInfo

open Registers

variable (V : Runtime)

/-- What a place holds, as a value that can be assigned to it. -/
def held (fi : FuseFileInfo) : Property → Value
  | .fh => .int fi.fh.toNat
  | p => get fi p

theorem toNat_of_integerValue {n : ℤ} (h0 : 0 ≤ n) (h : n ≤ 2 ^ 53) :
    ((V.integerValue (.int n)).toUInt64.toNat : ℤ) = n := by
  have hint : V.integerValue (.int n) = Int64.ofInt n :=
    V.integerValue_int (by omega) (by omega)
  rw [hint, toNat_toUInt64, Int64.toInt_ofInt_of_le (by omega) (by omega)]
  omega

theorem isRegister {p : Property} (hp : p ≠ .nonseekable) :
    IsRegister Assignment.property Assignment.value held (assign V) p := by
  refine ⟨fun fi a ha => ?_, fun fi a ha => ?_⟩
  · obtain ⟨q, v, htyped⟩ := a
    obtain rfl : q = p := ha
    cases q with
    | directIo | keepCache =>
      obtain ⟨b, rfl⟩ := htyped
      rfl
    | nonseekable => exact absurd rfl hp
    | fh =>
      obtain ⟨n, rfl, h0, h⟩ := htyped
      exact congrArg Value.int (toNat_of_integerValue V h0 h)
  · obtain ⟨q, v, htyped⟩ := a
    cases q <;> cases p <;> first | rfl | exact absurd rfl ha

theorem held_assignAll (fi : FuseFileInfo) (as : List Assignment) {p : Property}
    (hp : p ≠ .nonseekable) :
    held (assignAll V fi as) p = (assigned p as).getD (held fi p) :=
  (isRegister V hp).read_foldl fi as

theorem get_eq_of_held_eq {fi fi' : FuseFileInfo} {p : Property} (h : held fi' p = held fi p) :
    get fi' p = get fi p := by
  cases p with
  | directIo | keepCache | nonseekable => exact h
  | fh =>
    have hfh : (fi'.fh.toNat : ℤ) = fi.fh.toNat := int_inj.1 h
    exact congrArg (fun n : ℤ => Value.int (Integer.new n)) hfh

theorem get_nonseekable (fi : FuseFileInfo) : get fi .nonseekable = .boolean false := rfl

theorem get_of_unassigned (fi : FuseFileInfo) {as : List Assignment} {p : Property}
    (h : assigned p as = none) : get (assignAll V fi as) p = get fi p := by
  by_cases hp : p = .nonseekable
  · rw [hp]
    rfl
  · refine get_eq_of_held_eq ?_
    rw [held_assignAll V fi as hp, h]
    rfl

theorem get_of_assigned_flag (fi : FuseFileInfo) {as : List Assignment} {p : Property} {v : Value}
    (hp : p = .directIo ∨ p = .keepCache) (h : assigned p as = some v) :
    get (assignAll V fi as) p = v := by
  have hheld := held_assignAll V fi as (p := p) (by rcases hp with rfl | rfl <;> decide)
  rw [h] at hheld
  rcases hp with rfl | rfl <;> exact hheld

theorem fh_of_assigned (fi : FuseFileInfo) {as : List Assignment} {n : ℤ}
    (h : assigned .fh as = some (.int n)) : ((assignAll V fi as).fh.toNat : ℤ) = n := by
  have hheld := held_assignAll V fi as (p := .fh) (by decide)
  rw [h] at hheld
  exact int_inj.1 hheld

theorem get_fh_of_lt {fi : FuseFileInfo} {n : ℤ} (hfh : (fi.fh.toNat : ℤ) = n) (h : n < 2 ^ 31) :
    get fi .fh = .int n := by
  have hnew : Integer.new fi.fh.toNat = fi.fh.toNat := Integer.new_eq_iff.2 ⟨by omega, by omega⟩
  show Value.int (Integer.new fi.fh.toNat) = .int n
  rw [hnew, hfh]

/-- After any assignments, a property that was not assigned reads as before, `direct_io` and
`keep_cache` read as last assigned, `nonseekable` as false, and the handle holds the number last
assigned and reads as it below `2 ^ 31`. Once `reply.open` or `reply.create` has sent it, the handle
reads the same in every later request that the kernel sends it with. -/
theorem readings (V : Platform) (fi : FuseFileInfo) (as : List Assignment) :
    (∀ p, assigned p as = none → get (assignAll V.toRuntime fi as) p = get fi p)
      ∧ (∀ p v, p = .directIo ∨ p = .keepCache → assigned p as = some v →
        get (assignAll V.toRuntime fi as) p = v)
      ∧ get (assignAll V.toRuntime fi as) .nonseekable = .boolean false
      ∧ (∀ n : ℤ, assigned .fh as = some (.int n) →
        ((assignAll V.toRuntime fi as).fh.toNat : ℤ) = n
          ∧ (n < 2 ^ 31 → get (assignAll V.toRuntime fi as) .fh = .int n))
      ∧ ∀ (rc : ℕ → ℤ) (msg : FuseReply),
        ReplyMethods.Opens V rc (assignAll V.toRuntime fi as) msg →
          ∃ sent, ReplyMethods.sentFileInfo msg = some sent
            ∧ ∀ (S : Session) (m : Mem) (r : Request) (i : ℕ) (p : VoidPtr),
              (i, .fileInfo p) ∈ r.payload → (m.fileInfo p).fh = sent.fh →
                ∃ later, (r.invocation S m).argv[i]? = some (.fileInfo later)
                  ∧ get later .fh = get (assignAll V.toRuntime fi as) .fh := by
  refine ⟨fun p h => get_of_unassigned _ fi h, fun p v hp h => get_of_assigned_flag _ fi hp h,
    get_nonseekable _, fun n h => ?_, fun rc msg hopens => ?_⟩
  · have hfh := fh_of_assigned V.toRuntime fi h
    exact ⟨hfh, get_fh_of_lt hfh⟩
  · refine ⟨_, ReplyMethods.sentFileInfo_of_opens hopens, fun S m r i p hp hfh => ?_⟩
    refine ⟨m.fileInfo p, Receive.argv_payload S m r _ hp, ?_⟩
    exact congrArg (fun h : UInt64 => Value.int (Integer.new h.toNat)) hfh

def nonseekableSet : Assignment := ⟨.nonseekable, .boolean true, true, rfl⟩

def handleSet : Assignment := ⟨.fh, .int 2147483648, 2147483648, rfl, by decide, by decide⟩

/-- `nonseekable` reads false after it was set, and a handle of `2 ^ 31` reads negative. -/
theorem nonseekable_and_handle_misread :
    get (assignAll .amd64 default [nonseekableSet]) .nonseekable ≠ .boolean true
      ∧ get (assignAll .amd64 default [handleSet]) .fh ≠ .int 2147483648 := by
  refine ⟨fun h => ?_, fun h => ?_⟩
  · rw [get_nonseekable] at h
    cases h
  · have hassigned : assigned .fh [handleSet] = some (.int 2147483648) := rfl
    have hread : Integer.new (assignAll .amd64 default [handleSet]).fh.toNat = 2147483648 :=
      int_inj.1 h
    rw [fh_of_assigned .amd64 default hassigned] at hread
    exact absurd hread (by decide)

theorem isRegister_directIo : IsRegister Prod.fst (fun w : Property × Value => w.2.isTrue)
    (fun fi _ => fi.directIo) (write V) .directIo := by
  refine ⟨fun fi w hw => ?_, fun fi w hw => ?_⟩ <;> obtain ⟨p, value⟩ := w <;> cases p
  all_goals first | rfl | exact absurd rfl hw | cases hw

theorem isRegister_keepCache : IsRegister Prod.fst (fun w : Property × Value => w.2.isTrue)
    (fun fi _ => fi.keepCache) (write V) .keepCache := by
  refine ⟨fun fi w hw => ?_, fun fi w hw => ?_⟩ <;> obtain ⟨p, value⟩ := w <;> cases p
  all_goals first | rfl | exact absurd rfl hw | cases hw

theorem isRegister_fh : IsRegister Prod.fst
    (fun w : Property × Value => (V.integerValue w.2).toUInt64) (fun fi _ => fi.fh) (write V)
    .fh := by
  refine ⟨fun fi w hw => ?_, fun fi w hw => ?_⟩ <;> obtain ⟨p, value⟩ := w <;> cases p
  all_goals first | rfl | exact absurd rfl hw | cases hw

/-- What the setters leave alone. -/
theorem write_frame (fi : FuseFileInfo) (w : Property × Value) :
    write V fi w = { fi with
      directIo := (write V fi w).directIo
      keepCache := (write V fi w).keepCache
      fh := (write V fi w).fh } := by
  obtain ⟨p, value⟩ := w
  cases p <;> rfl

theorem writeAll_frame (fi : FuseFileInfo) (ws : List (Property × Value)) :
    writeAll V fi ws = { fi with
      directIo := (writeAll V fi ws).directIo
      keepCache := (writeAll V fi ws).keepCache
      fh := (writeAll V fi ws).fh } := by
  induction ws using List.reverseRecOn with
  | nil => rfl
  | append_singleton ws w ih =>
    have hlast : writeAll V fi (ws ++ [w]) = write V (writeAll V fi ws) w := by
      unfold writeAll
      rw [List.foldl_append, List.foldl_cons, List.foldl_nil]
    rw [hlast, write_frame V (writeAll V fi ws) w, ih]

theorem writeAll_eq_iff (fi : FuseFileInfo) (ws ws' : List (Property × Value)) :
    writeAll V fi ws = writeAll V fi ws'
      ↔ (writeAll V fi ws).directIo = (writeAll V fi ws').directIo
        ∧ (writeAll V fi ws).keepCache = (writeAll V fi ws').keepCache
        ∧ (writeAll V fi ws).fh = (writeAll V fi ws').fh := by
  refine ⟨fun h => ?_, fun h => ?_⟩
  · rw [h]
    exact ⟨rfl, rfl, rfl⟩
  · obtain ⟨h1, h2, h3⟩ := h
    rw [writeAll_frame V fi ws, writeAll_frame V fi ws', h1, h2, h3]

theorem isNone_set (value : Value) (fi : FuseFileInfo) (p : Property) :
    (set V value fi p).1.isNone = p.accepts value := by
  have hboolean : (booleanExpected value).isNone = value.isBoolean := by
    unfold booleanExpected
    split_ifs with h
    · exact h.symm
    · exact (eq_false_of_ne_true h).symm
  have hnumber : (numberExpected value).isNone = value.isNumber := by
    unfold numberExpected
    split_ifs with h
    · exact h.symm
    · exact (eq_false_of_ne_true h).symm
  cases p with
  | directIo | keepCache | nonseekable => exact hboolean
  | fh => exact hnumber

theorem accepted_eq_typed : ∀ (ws : List (Property × Value)) (fi : FuseFileInfo),
    accepted V fi ws = typed ws
  | [], _ => rfl
  | (p, value) :: ws, fi => by
    have ih := accepted_eq_typed ws (set V value fi p).2
    rw [accepted, typed, List.filter_cons]
    simp only [isNone_set, ih]
    rfl

/-- The last well-typed value of a flag is a boolean. -/
theorem last_typed_flag {p : Property} (hp : p = .directIo ∨ p = .keepCache)
    {ws : List (Property × Value)} {value : Value} (h : last Prod.fst Prod.snd p (typed ws) = some value) :
    ∃ b, value = .boolean b := by
  unfold last typed at h
  obtain ⟨w, hw, rfl⟩ := Option.map_eq_some_iff.1 h
  have hmem := List.mem_of_getLast? hw
  rw [List.mem_filter, List.mem_filter, decide_eq_true_iff] at hmem
  obtain ⟨⟨-, haccepts⟩, hname⟩ := hmem
  have hboolean : w.2.isBoolean := by
    rcases hp with rfl | rfl <;> rw [hname] at haccepts <;> exact haccepts
  rcases hvalue : w.2 with _ | _ | b | _ | _ | _ | _ | _ | _ | _ | _
  all_goals first | exact ⟨b, rfl⟩ | (rw [hvalue] at hboolean; cases hboolean)

theorem flag_left_iff {p : Property} (hp : p = .directIo ∨ p = .keepCache) (b : Bool)
    (ws : List (Property × Value)) :
    false = (last Prod.fst (fun w => w.2.isTrue) p (typed ws)).getD b
      ↔ (last Prod.fst Prod.snd p (typed ws)).getD (.boolean b) = .boolean false := by
  have hmap : last Prod.fst (fun w : Property × Value => w.2.isTrue) p (typed ws)
      = (last Prod.fst Prod.snd p (typed ws)).map Value.isTrue := by
    unfold last
    rw [Option.map_map]
    rfl
  rw [hmap]
  rcases hlast : last Prod.fst Prod.snd p (typed ws) with _ | value
  · simp [eq_comm]
  · obtain ⟨b', rfl⟩ := last_typed_flag hp hlast
    simp [Value.isTrue, eq_comm]

/-- A flag shows the rejected assignments exactly when one of them is the last and the others leave it
set. -/
theorem flag_eq_iff {p : Property} (hp : p = .directIo ∨ p = .keepCache)
    {read : FuseFileInfo → Bool} (h : IsRegister Prod.fst
      (fun w : Property × Value => w.2.isTrue) (fun fi _ => read fi) (write V) p)
    (fi : FuseFileInfo) (hget : get fi p = .boolean (read fi)) (ws : List (Property × Value)) :
    read (writeAll V fi ws) = read (writeAll V fi (typed ws))
      ↔ ∀ w, last Prod.fst id p ws = some w → ¬ w.2.isBoolean →
        (last Prod.fst Prod.snd p (typed ws)).getD (get fi p) = .boolean false := by
  rw [show read (writeAll V fi ws) = read (ws.foldl (write V) fi) from rfl]
  refine (h.read_filter_iff fi ws fun w => w.1.accepts w.2).trans ?_
  refine forall₂_congr fun w hw => ?_
  have haccepts : w.1.accepts w.2 = w.2.isBoolean := by
    rw [name_of_last Prod.fst hw]
    rcases hp with rfl | rfl <;> rfl
  rw [haccepts, hget, ← flag_left_iff hp]
  refine imp_congr_right fun hboolean => ?_
  have hfalse : w.2.isTrue = false := by
    rcases hvalue : w.2 with _ | _ | b | _ | _ | _ | _ | _ | _ | _ | _
    all_goals first | rfl | exact absurd (by rw [hvalue]; rfl) hboolean
  rw [hfalse]
  rfl

theorem fh_eq_iff (fi : FuseFileInfo) (ws : List (Property × Value)) :
    (writeAll V fi ws).fh = (writeAll V fi (typed ws)).fh
      ↔ ∀ w, last Prod.fst id .fh ws = some w → ¬ w.2.isNumber →
        (V.integerValue w.2).toUInt64 = ((last Prod.fst Prod.snd .fh (typed ws)).map
          fun value => (V.integerValue value).toUInt64).getD fi.fh := by
  refine ((isRegister_fh V).read_filter_iff fi ws fun w => w.1.accepts w.2).trans ?_
  refine forall₂_congr fun w hw => ?_
  have haccepts : w.1.accepts w.2 = w.2.isNumber := by
    rw [name_of_last Prod.fst hw]
    rfl
  have hmap : last Prod.fst (fun w : Property × Value => (V.integerValue w.2).toUInt64) .fh
      (typed ws) = (last Prod.fst Prod.snd .fh (typed ws)).map
        fun value => (V.integerValue value).toUInt64 := by
    unfold last
    rw [Option.map_map]
    rfl
  rw [haccepts, ← hmap]
  rfl

/-- Leaving the rejected assignments out makes no difference exactly when none of them is the last one
to its property, or they store there what the others leave. -/
theorem rejections_intact_iff (fi : FuseFileInfo) (ws : List (Property × Value)) :
    writeAll V fi ws = writeAll V fi (accepted V fi ws) ↔ RejectionsHarmless V fi ws := by
  have hdirectIo := flag_eq_iff V (.inl rfl) (isRegister_directIo V) fi rfl ws
  have hkeepCache := flag_eq_iff V (.inr rfl) (isRegister_keepCache V) fi rfl ws
  rw [accepted_eq_typed, writeAll_eq_iff, hdirectIo, hkeepCache, fh_eq_iff]
  refine ⟨fun h => ?_, fun h => ?_⟩
  · obtain ⟨h1, h2, h3⟩ := h
    refine ⟨fun p w hp => ?_, h3⟩
    rcases hp with rfl | rfl
    · exact h1 w
    · exact h2 w
  · exact ⟨fun w => h.flag _ w (.inl rfl), fun w => h.flag _ w (.inr rfl), h.handle⟩

/-- Assigning 1 to `direct_io` throws, and clears the flag that was set before. -/
theorem rejected_flag_cleared :
    writeAll .amd64 default [(.directIo, .boolean true), (.directIo, .int 1)]
      ≠ writeAll .amd64 default
        (accepted .amd64 default [(.directIo, .boolean true), (.directIo, .int 1)]) := by
  intro h
  have hflag := congrArg FuseFileInfo.directIo h
  cases hflag

end NodeFuse.FileInfo
