import NodeFuse.Proofs.Accumulator
import NodeFuse.ReplyMethods

/-!
# What the methods that end a request do

A method on arguments it takes replies (`call_of_accepts`), on others it throws (`call_of_rejects`),
unless it takes `undefined`, `null` or a hollow `FileInfo` for an object (`call_of_missing_object`).
-/

namespace NodeFuse.ReplyMethods

open Reply (arg succeed room requestedSize next)

variable (V : Platform) (rc : ℕ → ℤ)

section First

variable {p : Value → Bool} {args : List Value} (hp : p .undefined = false) {expected : String}
  {r : Reply} {go : Outcome}

include hp in
theorem length_ne_zero (h : p (arg args 0)) : args.length ≠ 0 := by
  intro hlen
  rw [List.length_eq_zero_iff] at hlen
  rw [hlen, show arg [] 0 = .undefined from rfl, hp] at h
  cases h

include hp in
theorem checkFirst_of_is (h : p (arg args 0)) : checkFirst p expected args r go = go := by
  unfold checkFirst
  rw [if_neg (length_ne_zero hp h), if_neg (not_not.2 h)]

theorem checkFirst_of_not (h : ¬ p (arg args 0)) :
    ∃ e, checkFirst p expected args r go = throwException e r := by
  unfold checkFirst
  split_ifs
  · exact ⟨_, rfl⟩
  · exact ⟨_, rfl⟩

end First

theorem toObject_eq_self {v v' : Value} (h : v.toObject = some v') : v' = v := by
  cases v <;> cases h <;> rfl

theorem toObject_of_fileInfo {v : Value} (h : v.fileInfo?.isSome) :
    v.toObject = some v ∧ v.isFileInfo := by
  cases v with
  | fileInfo fi => exact ⟨rfl, rfl⟩
  | _ => cases h

theorem isSome_objectToFuseEntryParam (obj : Value) :
    (V.objectToFuseEntryParam obj (entryParam V)).isSome = (obj.get "attr").toObject.isSome :=
  Option.isSome_map

theorem call_of_accepts {m : Method} {args : List Value} (h : m.Accepts args) (r : Reply) :
    ∃ msg, m.call V rc args r = send V rc msg r := by
  cases m with
  | entry =>
    obtain ⟨hobject, hattr⟩ := h
    rw [← isSome_objectToFuseEntryParam V] at hattr
    obtain ⟨e, he⟩ := Option.isSome_iff_exists.1 hattr
    unfold Method.call entry
    rw [checkFirst_of_is rfl hobject, he]
    exact ⟨_, rfl⟩
  | attr =>
    obtain ⟨hobject, htimeout⟩ := h
    unfold Method.call attributes
    rw [checkFirst_of_is rfl hobject]
    simp only []
    split_ifs with htwo hnumber
    · exact ⟨_, rfl⟩
    · exact absurd (htimeout htwo) hnumber
    · exact ⟨_, rfl⟩
  | readlink | err | write | statfs | xattr => exact ⟨_, checkFirst_of_is rfl h⟩
  | «open» =>
    have hlen := length_ne_zero (p := fun v => v.fileInfo?.isSome) rfl h
    obtain ⟨hobject, his⟩ := toObject_of_fileInfo h
    obtain ⟨fi, hfi⟩ := Option.isSome_iff_exists.1 h
    unfold Method.call «open»
    rw [if_neg hlen, hobject, Option.bind_eq_bind, Option.bind_some, if_neg (not_not.2 his), hfi]
    exact ⟨_, rfl⟩
  | buffer =>
    have hlen := length_ne_zero (p := fun v => v.buffer?.isSome) rfl h
    obtain ⟨data, hdata⟩ := Option.isSome_iff_exists.1 h
    show ∃ msg, some (Reply.buffer V.toRuntime rc args r) = send V rc msg r
    unfold Reply.buffer
    rw [if_neg hlen, hdata]
    exact ⟨_, rfl⟩
  | create =>
    obtain ⟨hobject, hattr, hfileInfo⟩ := h
    have hlen : ¬ (args.length = 0 ∨ args.length < 2) := by
      intro hlen
      have hnone : arg args 1 = .undefined := by
        unfold arg
        rw [List.getD_eq_getElem?_getD, List.getElem?_eq_none (by omega)]
        rfl
      rw [hnone] at hfileInfo
      cases hfileInfo
    obtain ⟨hobject', his⟩ := toObject_of_fileInfo hfileInfo
    rw [← isSome_objectToFuseEntryParam V] at hattr
    obtain ⟨e, he⟩ := Option.isSome_iff_exists.1 hattr
    obtain ⟨fi, hfi⟩ := Option.isSome_iff_exists.1 hfileInfo
    unfold Method.call create
    rw [if_neg hlen, if_neg (not_not.2 hobject), he, hobject']
    simp only [Option.bind_eq_bind, Option.bind_some]
    rw [if_neg (not_not.2 his), hfi]
    exact ⟨_, rfl⟩

/-- The object is there, so the call gets as far as the check. -/
theorem call_of_rejects {m : Method} {args : List Value} (h : ¬ m.Accepts args)
    (hgiven : m.ObjectsGiven args) (r : Reply) :
    ∃ e, m.call V rc args r = throwException e r := by
  cases m with
  | entry =>
    refine checkFirst_of_not fun hobject => h ⟨hobject, hgiven hobject⟩
  | attr =>
    by_cases hobject : (arg args 0).isObject
    · unfold Method.call attributes
      rw [checkFirst_of_is rfl hobject]
      have htwo : args.length = 2 ∧ ¬ (arg args 1).isNumber := by
        by_contra hno
        exact h ⟨hobject, fun htwo => by_contra fun hn => hno ⟨htwo, hn⟩⟩
      simp only []
      rw [if_pos htwo.1, if_pos htwo.2]
      exact ⟨_, rfl⟩
    · exact checkFirst_of_not hobject
  | readlink | err | write | statfs | xattr => exact checkFirst_of_not h
  | «open» =>
    unfold Method.call «open»
    by_cases hlen : args.length = 0
    · rw [if_pos hlen]
      exact ⟨_, rfl⟩
    · obtain ⟨hobject, hwraps⟩ := hgiven (List.ne_nil_of_length_pos (by omega))
      obtain ⟨v, hv⟩ := Option.isSome_iff_exists.1 hobject
      have hno : ¬ (arg args 0).isFileInfo := fun his => h (hwraps his)
      rw [if_neg hlen, hv, toObject_eq_self hv, Option.bind_eq_bind, Option.bind_some, if_pos hno]
      exact ⟨_, rfl⟩
  | buffer =>
    have hno : (arg args 0).buffer? = none := Option.not_isSome_iff_eq_none.1 h
    show ∃ e, some (Reply.buffer V.toRuntime rc args r) = throwException e r
    unfold Reply.buffer
    by_cases hlen : args.length = 0
    · rw [if_pos hlen]
      exact ⟨_, rfl⟩
    · rw [if_neg hlen, hno]
      exact ⟨_, rfl⟩
  | create =>
    unfold Method.call create
    by_cases hlen : args.length = 0 ∨ args.length < 2
    · rw [if_pos hlen]
      exact ⟨_, rfl⟩
    rw [if_neg hlen]
    by_cases hobject : (arg args 0).isObject
    · obtain ⟨hattr, hobject', hwraps⟩ := hgiven (by omega) hobject
      obtain ⟨v, hv⟩ := Option.isSome_iff_exists.1 hobject'
      have hno : ¬ (arg args 1).isFileInfo := fun his => h ⟨hobject, hattr, hwraps his⟩
      rw [← isSome_objectToFuseEntryParam V] at hattr
      obtain ⟨e, he⟩ := Option.isSome_iff_exists.1 hattr
      rw [if_neg (not_not.2 hobject), he, hv, toObject_eq_self hv]
      simp only [Option.bind_eq_bind, Option.bind_some]
      rw [if_pos hno]
      exact ⟨_, rfl⟩
    · rw [if_pos hobject]
      exact ⟨_, rfl⟩

/-- Neither `undefined` and `null` nor a hollow `FileInfo` gets as far as a reply. -/
theorem bind_of_unusable {v : Value} (h : ¬ Method.Usable v) (e : Outcome)
    (go : FuseFileInfo → Outcome) :
    (v.toObject.bind fun fiobj => if ¬ fiobj.isFileInfo then e else fiobj.fileInfo?.bind go)
      = none := by
  cases v with
  | undefined | null | hollowFileInfo => rfl
  | fileInfo fi => exact absurd ⟨rfl, fun _ => rfl⟩ h
  | boolean | number | string | booleanObject | date | buffer | reply | object =>
    exact absurd ⟨rfl, fun his => by cases his⟩ h

theorem call_of_missing_object {m : Method} {args : List Value} (h : ¬ m.ObjectsGiven args)
    (r : Reply) : m.call V rc args r = none := by
  cases m with
  | entry =>
    obtain ⟨hobject, hattr⟩ := Classical.not_imp.1 h
    rw [← isSome_objectToFuseEntryParam V, Option.not_isSome_iff_eq_none] at hattr
    unfold Method.call entry
    rw [checkFirst_of_is rfl hobject, hattr]
    rfl
  | «open» =>
    obtain ⟨hlen, hobject⟩ := Classical.not_imp.1 h
    unfold Method.call «open»
    rw [if_neg fun h => hlen (List.length_eq_zero_iff.1 h)]
    exact bind_of_unusable hobject _ _
  | create =>
    obtain ⟨hlen, h⟩ := Classical.not_imp.1 h
    obtain ⟨hobject, h⟩ := Classical.not_imp.1 h
    unfold Method.call create
    rw [if_neg (by omega), if_neg (not_not.2 hobject)]
    rcases he : V.objectToFuseEntryParam (arg args 0) (entryParam V) with _ | e
    · rfl
    · have hattr : ((arg args 0).get "attr").toObject.isSome := by
        rw [← isSome_objectToFuseEntryParam V, he]
        rfl
      exact bind_of_unusable (fun husable => h ⟨hattr, husable⟩) _ _
  | attr | readlink | err | buffer | write | statfs | xattr => exact absurd trivial h

theorem send_succeed (msg : FuseReply) (r : Reply) :
    send V succeed msg r = some (.ok .undefined, { r with sent := r.sent ++ [msg] }) := by
  unfold send
  simp only [Reply.reply, succeed, show ¬ (0 : ℤ) = -1 by decide, if_false]

/-- A method is safe for exactly the arguments that give it an object, and no hollow `FileInfo`, where
it takes one. -/
theorem method_safe_iff (m : Method) (args : List Value) (r : Reply) :
    SafeMethod V m args r ↔ m.ObjectsGiven args := by
  refine ⟨fun h => ?_, fun h => ?_⟩
  · by_contra hmissing
    obtain ⟨result, r', hcall, -⟩ := h
    rw [call_of_missing_object V succeed hmissing] at hcall
    cases hcall
  · by_cases haccepts : m.Accepts args
    · obtain ⟨msg, hcall⟩ := call_of_accepts V succeed haccepts r
      rw [send_succeed] at hcall
      exact ⟨_, _, hcall, .inr ⟨msg, rfl⟩⟩
    · obtain ⟨e, hcall⟩ := call_of_rejects V succeed haccepts h r
      exact ⟨_, _, hcall, .inl ⟨e, rfl, rfl⟩⟩

/-- `open(undefined)`, an entry without its `attr`, and `open(new fileInfo.constructor())`. -/
theorem missing_objects_unsafe :
    ¬ SafeMethod .amd64 .open [.undefined] .new
      ∧ ¬ SafeMethod .amd64 .entry [.object [("inode", .int 2)]] .new
      ∧ ¬ SafeMethod .amd64 .open [.hollowFileInfo] .new := by
  refine ⟨fun h => ?_, fun h => ?_, fun h => ?_⟩
  · obtain ⟨_, _, hcall, -⟩ := h
    cases hcall
  · obtain ⟨_, _, hcall, -⟩ := h
    cases hcall
  · obtain ⟨_, _, hcall, -⟩ := h
    cases hcall

theorem send_eq (msg : FuseReply) (r : Reply) :
    send V rc msg r = some (if rc r.sent.length = -1 then
        (.error (fusejsThrowException "Error replying operation: " V.strerror),
          { r with sent := r.sent ++ [msg] })
      else (.ok .undefined, { r with sent := r.sent ++ [msg] })) := rfl

section Opens

variable {V rc} {r r' : Reply} {result : Except JsError Value}

theorem sent_of_send {msg : FuseReply} (h : send V rc msg r = some (result, r')) :
    r'.sent = r.sent ++ [msg] := by
  rw [send_eq, Option.some.injEq] at h
  by_cases hrc : rc r.sent.length = -1
  · rw [if_pos hrc] at h
    rw [← (Prod.mk.inj h).2]
  · rw [if_neg hrc] at h
    rw [← (Prod.mk.inj h).2]

theorem sent_of_throw {e : JsError} (h : throwException e r = some (result, r')) :
    r'.sent = r.sent := by
  rw [← (Prod.mk.inj (Option.some.inj h)).2]

theorem sentFileInfo_of_opens {fi : FuseFileInfo} {msg : FuseReply} (h : Opens V rc fi msg) :
    sentFileInfo msg = some fi := by
  obtain ⟨args, r, result, r', hsent, ⟨harg, hcall⟩ | ⟨harg, hcall⟩⟩ := h
  -- a method that throws sends nothing, so the call got as far as its reply
  · unfold «open» at hcall
    rw [harg] at hcall
    split_ifs at hcall with hlen
    · rw [sent_of_throw hcall] at hsent
      simp at hsent
    · have hreply : r'.sent = r.sent ++ [.open fi] := sent_of_send hcall
      rw [hsent, List.append_cancel_left_eq, List.singleton_inj] at hreply
      rw [hreply]
      rfl
  · unfold create at hcall
    rw [harg] at hcall
    split_ifs at hcall with hlen hobject
    · rw [sent_of_throw hcall] at hsent
      simp at hsent
    · obtain ⟨entry, -, hcall⟩ := Option.bind_eq_some_iff.1 hcall
      have hreply : r'.sent = r.sent ++ [.create entry fi] := sent_of_send hcall
      rw [hsent, List.append_cancel_left_eq, List.singleton_inj] at hreply
      rw [hreply]
      rfl
    · rw [sent_of_throw hcall] at hsent
      simp at hsent

end Opens

theorem raises_send (msg : FuseReply) (r : Reply) :
    (send V rc msg r).raises ↔ rc r.sent.length = -1 := by
  rw [send_eq]
  by_cases h : rc r.sent.length = -1
  · rw [if_pos h]
    exact iff_of_true rfl h
  · rw [if_neg h]
    exact iff_of_false Bool.false_ne_true h

/-- A reply that was not sent is told from one that was exactly where libfuse returns 0 or -1, and one
to an entry that does not fit is not repeated exactly where it does not return -1. -/
theorem reports_iff (D : DirentFormat) (r : Reply) (call : Replying) :
    Reports V rc D r call ↔ Recognised V rc r call := by
  cases call with
  | method m args accepts =>
    obtain ⟨msg, hcall⟩ := call_of_accepts V rc accepts r
    unfold Reports Recognised
    simp only [hcall, raises_send]
    refine ⟨fun h => ?_, fun h => ?_⟩
    · by_cases hzero : rc r.sent.length = 0
      · exact .inl hzero
      · exact .inr (h.2 hzero)
    · rcases h with h | h
      · rw [h]
        decide
      · rw [h]
        decide
  | addDirEntry size c =>
    unfold Reports Recognised
    simp only []
    refine forall_congr' fun hroom => ?_
    rw [Reply.sent_of_passed rc hroom]
    refine ⟨fun h hrc => ?_, fun h _ => ?_⟩
    · have hlen := h (by rw [hrc]; decide)
      rw [if_pos hrc, List.length_append, List.length_cons, List.length_singleton] at hlen
      omega
    · rw [if_neg h, List.length_append, List.length_singleton]

/-- `err(0)` on an interrupted request returns as if it were sent, and an entry that does not fit is
replied to twice when libfuse returns -1. -/
theorem failures_mistaken :
    ¬ Reports .amd64 (fun _ => -2) .linux .new (.method .err [.int 0] rfl)
      ∧ ¬ Reports .amd64 (fun _ => -1) .linux .new (.addDirEntry (.fin 0) (Reply.entry [97])) := by
  refine ⟨fun h => ?_, fun h => ?_⟩
  · have hraises := h.2 (by decide)
    cases hraises
  · have hsize : requestedSize .amd64 (.fin ((0 : ℕ) : ℤ)) = 0 :=
      Reply.requestedSize_natCast .amd64 (by decide)
    have hroom : room (requestedSize .amd64 (.fin 0)) Reply.new.dentryAccSize
        < (Reply.entry [97]).size := by
      rw [show (.fin 0 : Num) = .fin ((0 : ℕ) : ℤ) by rfl, hsize]
      decide
    have hlen : (next Platform.amd64.toRuntime .linux (fun _ => -1) (.fin 0) (Reply.entry [97])
        .new).sent.length = Reply.new.sent.length + 1 := h hroom (by decide)
    rw [Reply.sent_of_passed (V := Platform.amd64.toRuntime) (fun _ => -1) hroom] at hlen
    exact absurd hlen (by decide)

end NodeFuse.ReplyMethods
