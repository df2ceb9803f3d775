import NodeFuse.Arguments

/-!
# Packing and unpacking

Every cast a slot goes through is undone by the one that reads it, so `Proxy::Call` finds the
function of the same operation and that function finds the arguments (`call_serve`). All but
`SetXAttr` stay within their arrays. A number reaches JavaScript unchanged when it goes through
`Number::New`, and through `Integer::New` exactly when it is below `2 ^ 31`.
-/

namespace NodeFuse

open FileSystem

@[simp] theorem toInt_ofInt (x : Int32) : toInt (ofInt x) = x := by simp [toInt, ofInt]

@[simp] theorem toMode_ofMode (x : UInt32) : toMode (ofMode x) = x := by simp [toMode, ofMode]

/-- The function bound to an operation's name gets the operation's arguments back. -/
theorem call_serve (copy : VoidPtr) (r : Request) :
    Proxy.call (serve copy r).op (serve copy r).args.raw = [r.forwarded copy] := by
  -- a slot that holds an `int` or a `mode_t` needs its casts undone
  cases r with
  | setAttr _ _ _ toSet _ =>
    exact congrArg (fun x => [Request.setAttr _ _ _ x _]) (toInt_ofInt toSet)
  | fSync _ _ datasync _ =>
    exact congrArg (fun x => [Request.fSync _ _ x _]) (toInt_ofInt datasync)
  | fSyncDir _ _ datasync _ =>
    exact congrArg (fun x => [Request.fSyncDir _ _ x _]) (toInt_ofInt datasync)
  | setXAttr _ _ _ _ _ flags =>
    exact congrArg (fun x => [Request.setXAttr _ _ _ _ _ x]) (toInt_ofInt flags)
  | access _ _ mask =>
    exact congrArg (fun x => [Request.access _ _ x]) (toInt_ofInt mask)
  | setLock _ _ _ _ sleep =>
    exact congrArg (fun x => [Request.setLock _ _ _ _ x]) (toInt_ofInt sleep)
  | mkNod _ _ _ mode _ =>
    exact congrArg (fun x => [Request.mkNod _ _ _ x _]) (toMode_ofMode mode)
  | mkDir _ _ _ mode =>
    exact congrArg (fun x => [Request.mkDir _ _ _ x]) (toMode_ofMode mode)
  | create _ _ _ mode _ =>
    exact congrArg (fun x => [Request.create _ _ _ x _]) (toMode_ofMode mode)
  | _ => rfl

theorem invocations_serve (S : Session) (m : Mem) (copy : VoidPtr) (r : Request) :
    Proxy.invocations S m (serve copy r) = [(r.forwarded copy).invocation S m] := by
  rw [Proxy.invocations, call_serve, List.map_singleton]

theorem stored_length {r : Request} (h : r.isSetXAttr = false) (copy : VoidPtr) :
    (serve copy r).args.stored.length = (serve copy r).args.len := by
  cases r with
  | setXAttr => cases h
  | _ => rfl

theorem checked_eq_raw {a : ArgArray} (h : a.stored.length ≤ a.len) : a.checked = a.raw := by
  funext i
  unfold ArgArray.checked ArgArray.raw
  split_ifs with hi
  · rfl
  · exact (List.getElem?_eq_none (by omega)).symm

theorem cstr_strcpy (m : Mem) (dst src : VoidPtr) : (m.strcpy dst src).cstr dst = m.cstr src := by
  have h : (m.strcpy dst src).chars dst = m.cstr src ++ [0] := if_pos rfl
  unfold Mem.cstr at h ⊢
  rw [h, cstring_takeWhile]

theorem same_forwarded (m : Mem) (copy : VoidPtr) (r : Request) :
    r.Same m (effect copy m r) (r.forwarded copy) := by
  cases r with
  | lookup req parent name => exact ⟨rfl, rfl, cstr_strcpy m copy name⟩
  | _ => rfl

/-- Arguments pack and unpack losslessly, and in bounds, in every operation but `SetXAttr`. -/
theorem arguments_lossless_iff (m : Mem) (copy : VoidPtr) (r : Request) :
    Lossless m copy r ↔ r.isSetXAttr = false := by
  refine ⟨fun h => ?_, fun h => ?_⟩
  · cases r with
    | setXAttr req ino name value size flags =>
      have : (5 : ℕ) < 5 := h.stores_in_bounds 5 (by simp [serve, setXAttr, post])
      omega
    | _ => rfl
  · have hlen := stored_length h copy
    refine ⟨fun i hi => by omega, r.forwarded copy, ?_, same_forwarded m copy r⟩
    rw [checked_eq_raw hlen.le, call_serve]

/-- `SetXAttr` stores its flags past the end of its array. -/
theorem setXAttr_not_lossless : ¬ Lossless default 0 (.setXAttr 1 2 3 4 5 6) := by
  intro h
  exact absurd (h.stores_in_bounds 5 (by decide)) (by decide)

def Kind.convert (k : Kind) (v : ℤ) : ℤ := if k.wide then Number.new v else Integer.new v

theorem int_inj {a b : ℤ} : Value.int a = Value.int b ↔ a = b := by
  simp [Value.int]

theorem read_caller (S : Session) (req : VoidPtr) (middle : List Value) {s : Scalar}
    (hs : s ∈ callerScalars (S.ctx req)) :
    s.place.read (Request.argv S req middle) = some (.int (s.kind.convert s.value)) := by
  simp only [callerScalars, List.mem_cons, List.not_mem_nil, or_false] at hs
  rcases hs with rfl | rfl | rfl <;>
    simp [Place.read, Request.argv, requestContextToObject, Kind.convert, Kind.wide]

theorem argv_of_req (S : Session) (m : Mem) {r : Request} {req : VoidPtr} (h : r.req? = some req) :
    ∃ middle, (r.invocation S m).argv = Request.argv S req middle := by
  cases r <;> simp only [Request.req?, Option.some.injEq, reduceCtorEq] at h <;> subst h <;>
    exact ⟨_, rfl⟩

theorem read_own (S : Session) (m : Mem) (r : Request) :
    ∀ s ∈ r.ownScalars, s.place.read (r.invocation S m).argv
      = some (.int (s.kind.convert s.value)) := by
  cases r <;> simp only [Request.ownScalars, List.forall_mem_cons, List.not_mem_nil,
    IsEmpty.forall_iff, implies_true, and_true] <;> and_intros <;>
    simp [Place.read, Request.invocation, Request.argv, Request.num, Kind.convert, Kind.wide]

theorem read_scalar (S : Session) (m : Mem) (r : Request) {s : Scalar} (hs : s ∈ r.scalars S) :
    s.place.read (r.invocation S m).argv = some (.int (s.kind.convert s.value)) := by
  rcases List.mem_append.1 hs with hs | hs
  · obtain ⟨req, hreq, hs⟩ := List.mem_flatMap.1 hs
    obtain ⟨middle, hargv⟩ := argv_of_req S m (Option.mem_toList.1 hreq)
    rw [hargv]
    exact read_caller S req middle hs
  · exact read_own S m r s hs

theorem scalars_forwarded (S : Session) (copy : VoidPtr) (r : Request) :
    (r.forwarded copy).scalars S = r.scalars S := by
  cases r <;> rfl

theorem convert_eq_iff {k : Kind} {v : ℤ} (h0 : 0 ≤ v) (h : v ≤ 2 ^ 53) :
    k.convert v = v ↔ k.wide = true ∨ v < 2 ^ 31 := by
  unfold Kind.convert
  split_ifs with hk
  · simp [hk, Number.new_of_le h0 h]
  · rw [Integer.new_eq_iff]
    simp only [hk, Bool.false_eq_true, false_or]
    omega

/-- A number of a request up to `2 ^ 53` reaches its handler unchanged exactly when it is an inode
number or the size of an extended attribute, or below `2 ^ 31`. -/
theorem scalar_delivered_iff (S : Session) (m : Mem) (copy : VoidPtr) (r : Request) (s : Scalar)
    (hs : s ∈ r.scalars S) (h0 : 0 ≤ s.value) (h : s.value ≤ 2 ^ 53) :
    Delivered S m copy r s ↔ s.kind.wide = true ∨ s.value < 2 ^ 31 := by
  rw [← scalars_forwarded S copy] at hs
  have hread := read_scalar S m (r.forwarded copy) hs
  unfold Delivered
  rw [invocations_serve, ← convert_eq_iff h0 h]
  refine ⟨fun h => ?_, fun hc => ?_⟩
  · obtain ⟨i, hi, hr⟩ := h
    simp only [List.cons.injEq, and_true] at hi
    rw [← hi, hread, Option.some.injEq, int_inj] at hr
    exact hr
  · exact ⟨_, rfl, by rw [hread, hc]⟩

theorem inode_number_delivered :
    Delivered default default 0 (.readLink 1 0x10000000000) ⟨.ino, .arg 1, 0x10000000000⟩ :=
  (scalar_delivered_iff default default 0 (.readLink 1 0x10000000000)
    ⟨.ino, .arg 1, 0x10000000000⟩ (List.mem_append_right _ (List.mem_singleton.2 rfl))
    (by decide) (by decide)).2 (.inl rfl)

/-- The size of a write reaches its handler as the length of the buffer, however large it is. -/
theorem length_buffer_write (S : Session) (m : Mem) (copy req : VoidPtr) (ino : UInt64)
    (buf : VoidPtr) (size : UInt64) (off : Int64) (fi : VoidPtr)
    (hroom : size.toNat ≤ (m.chars buf).length) :
    ∃ i bytes, Proxy.invocations S m (serve copy (.write req ino buf size off fi)) = [i]
      ∧ i.argv[2]? = some (.buffer bytes) ∧ bytes.length = size.toNat := by
  refine ⟨_, (m.chars buf).take size.toNat, invocations_serve S m copy _, rfl, ?_⟩
  rw [List.length_take, min_eq_left hroom]

/-- The offset of a read at 2 GiB reaches its handler as a negative number. -/
theorem read_offset_not_delivered :
    (⟨.off, .arg 3, 2 ^ 31⟩ : Scalar) ∈ (Request.read 1 2 4096 (2 ^ 31) 0).scalars default
      ∧ ¬ Delivered default default 0 (.read 1 2 4096 (2 ^ 31) 0) ⟨.off, .arg 3, 2 ^ 31⟩ := by
  refine ⟨List.mem_append_right _ (by simp [Request.ownScalars]; decide), ?_⟩
  rintro ⟨i, hi, hr⟩
  rw [invocations_serve, List.cons.injEq] at hi
  have hread : Place.read ((Request.read 1 2 4096 (2 ^ 31) 0).invocation default default).argv
      (.arg 3) = some (.int (Integer.new (2 ^ 31))) := rfl
  rw [← hi.1] at hr
  exact absurd (int_inj.1 (Option.some.inj (hread.symm.trans hr))) (by decide)

end NodeFuse
