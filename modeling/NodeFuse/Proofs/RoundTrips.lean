import NodeFuse.Proofs.Fields

/-!
# Structures that go to JavaScript and come back

The attributes of a `setattr` reach the filesystem as an object with the properties the mask selects,
which decodes to the same attributes (`attrs_echoed`). A lock comes back as it was exactly when its
range fits 32 bits (`flock_round_trip_iff`): its offsets go out through `Integer::New`.
-/

namespace NodeFuse

section Selected

variable {ι κ ν : Type*} (key : ι → κ) (value : ι → ν) (p : ι → Prop) [DecidablePred p]

theorem mem_selected {l : List ι} {e : κ × ν} :
    e ∈ l.flatMap (fun a => if p a then [(key a, value a)] else [])
      ↔ ∃ a ∈ l, p a ∧ e = (key a, value a) := by
  rw [List.mem_flatMap]
  refine exists_congr fun a => and_congr_right fun _ => ?_
  by_cases ha : p a
  · rw [if_pos ha, List.mem_singleton, and_iff_right ha]
  · rw [if_neg ha]
    exact iff_of_false List.not_mem_nil fun h => ha h.1

variable [DecidableEq κ]

theorem isSome_lookup_selected (l : List ι) (k : κ) :
    ((l.flatMap (fun a => if p a then [(key a, value a)] else [])).lookup k).isSome
      ↔ ∃ a ∈ l, p a ∧ key a = k := by
  rw [List.lookup_isSome_iff]
  refine ⟨fun h => ?_, fun h => ?_⟩
  · obtain ⟨e, he, hkey⟩ := h
    obtain ⟨a, ha, hp, rfl⟩ := (mem_selected key value p).1 he
    exact ⟨a, ha, hp, (beq_iff_eq.1 hkey).symm⟩
  · obtain ⟨a, ha, hp, rfl⟩ := h
    exact ⟨_, (mem_selected key value p).2 ⟨a, ha, hp, rfl⟩, beq_self_eq_true _⟩

theorem lookup_selected {l : List ι} (hkey : Function.Injective key) {a : ι} (ha : a ∈ l)
    (hp : p a) :
    (l.flatMap (fun a => if p a then [(key a, value a)] else [])).lookup (key a)
      = some (value a) := by
  have hsome := (isSome_lookup_selected key value p l (key a)).2 ⟨a, ha, hp, rfl⟩
  obtain ⟨v, hv⟩ := Option.isSome_iff_exists.1 hsome
  obtain ⟨l₁, l₂, hl, -⟩ := List.lookup_eq_some_iff.1 hv
  have hmem : (key a, v) ∈ l.flatMap (fun a => if p a then [(key a, value a)] else []) := by
    rw [hl]
    exact List.mem_append_right _ List.mem_cons_self
  obtain ⟨b, -, -, heq⟩ := (mem_selected key value p).1 hmem
  obtain ⟨hkeys, hvalues⟩ := Prod.ext_iff.1 heq
  rw [hv, hkey hkeys]
  exact congrArg some hvalues

/-- The same properties are selected, so the objects differ where a value does. -/
theorem selected_eq_iff (value' : ι → ν) {l : List ι} (hkey : Function.Injective key) :
    l.flatMap (fun a => if p a then [(key a, value a)] else [])
        = l.flatMap (fun a => if p a then [(key a, value' a)] else [])
      ↔ ∀ a ∈ l, p a → value a = value' a := by
  refine ⟨fun h a ha hp => ?_, fun h => ?_⟩
  · have hvalue := lookup_selected key value p hkey ha hp
    rw [h, lookup_selected key value' p hkey ha hp] at hvalue
    exact (Option.some.inj hvalue).symm
  · refine List.flatMap_congr fun a ha => ?_
    split_ifs with hp
    · rw [h a ha hp]
    · rfl

end Selected

theorem store_int_integer (V : Platform) (t : IntType) {n : ℤ} (h : IntType.int64.Fits n) :
    V.store (.int n) (.integer t) = .fin (t.wrap n : ℤ) := by
  obtain ⟨hle, hlt⟩ := IntType.fits_int64.1 h
  have hint : V.integerValue (.int n) = Int64.ofInt n := V.integerValue_int hle hlt
  rw [Platform.store, hint, Int64.toInt_ofInt_of_le hle hlt]

theorem fits_integerNew (n : ℤ) : IntType.int64.Fits (Integer.new n) := by
  obtain ⟨hle, hlt⟩ := IntType.fits_int32.1 (IntType.int32.fits_wrap n)
  exact IntType.fits_int64.2 ⟨le_trans (by norm_num) hle, lt_trans hlt (by norm_num)⟩

/-- What `Integer::New` makes of an integer comes back in a type of at most 32 bits that holds it. -/
theorem wrap_integerNew {t : IntType} {n : ℤ} (ht : t.bits ≤ 32) (h : t.Fits n) :
    t.wrap (Integer.new n) = n := by
  have hdvd : 2 ^ t.bits ∣ 2 ^ 32 := pow_dvd_pow 2 ht
  have hwrap := t.wrap_of_fits h
  unfold IntType.wrap Integer.new at *
  split_ifs at hwrap ⊢
  · rw [Int.bmod_bmod_of_dvd hdvd, hwrap]
  · have hemod := Int.bmod_emod (x := n) (m := 2 ^ 32)
    have hdvd' : (2 : ℤ) ^ t.bits ∣ ((2 ^ 32 : ℕ) : ℤ) := by exact_mod_cast hdvd
    rw [← Int.emod_emod_of_dvd _ hdvd', hemod, Int.emod_emod_of_dvd _ hdvd', hwrap]

theorem store_integerNew (V : Platform) (t : IntType) (n : ℤ) :
    V.store (.int (Integer.new n)) (.integer t) = .fin (t.wrap (Integer.new n) : ℤ) :=
  store_int_integer V t (fits_integerNew n)

theorem fin_intCast_inj {n m : ℤ} : Num.fin (n : ℚ) = Num.fin (m : ℚ) ↔ n = m := by
  rw [Num.fin.injEq, Int.cast_inj]

namespace FlockField

theorem ext_read {l₁ l₂ : Flock} (h : ∀ f, read l₁ f = read l₂ f) : l₁ = l₂ := by
  have htype := Int16.toInt_inj.1 (fin_intCast_inj.1 (h type))
  have hwhence := Int16.toInt_inj.1 (fin_intCast_inj.1 (h whence))
  have hstart := Int64.toInt_inj.1 (fin_intCast_inj.1 (h start))
  have hlen := Int64.toInt_inj.1 (fin_intCast_inj.1 (h len))
  have hpid := Int32.toInt_inj.1 (fin_intCast_inj.1 (h pid))
  cases l₁
  cases l₂
  simp_all

variable (V : Platform) (lock lock₀ : Flock)

theorem read_round_trip_offset {f : FlockField} {x : Int64}
    (hget : (flockToObject lock).get f.property = .int (Integer.new x.toInt))
    (hconv : f.conversion = .integer .int64) (hread : read lock f = .fin (x.toInt : ℤ)) :
    read (V.objectToFlock (flockToObject lock) lock₀) f = read lock f
      ↔ -2 ^ 31 ≤ x.toInt ∧ x.toInt < 2 ^ 31 := by
  rw [read_objectToFlock, hget, hconv, store_integerNew,
    IntType.int64.wrap_of_fits (fits_integerNew _), hread, fin_intCast_inj, Integer.new_eq_iff]

theorem read_round_trip_short {f : FlockField} {t : IntType} {n : ℤ}
    (hget : (flockToObject lock).get f.property = .int (Integer.new n))
    (hconv : f.conversion = .integer t) (hread : read lock f = .fin (n : ℤ)) (ht : t.bits ≤ 32)
    (hfits : t.Fits n) :
    read (V.objectToFlock (flockToObject lock) lock₀) f = read lock f := by
  rw [read_objectToFlock, hget, hconv, store_integerNew, wrap_integerNew ht hfits, hread]

theorem read_round_trip_of_short {f : FlockField} (hstart : f ≠ start) (hlen : f ≠ len) :
    read (V.objectToFlock (flockToObject lock) lock₀) f = read lock f := by
  cases f with
  | type =>
    have hfits := IntType.fits_int16.2 ⟨lock.type.le_toInt, lock.type.toInt_lt⟩
    exact read_round_trip_short V lock lock₀ rfl rfl rfl (by decide) hfits
  | whence =>
    have hfits := IntType.fits_int16.2 ⟨lock.whence.le_toInt, lock.whence.toInt_lt⟩
    exact read_round_trip_short V lock lock₀ rfl rfl rfl (by decide) hfits
  | start => exact absurd rfl hstart
  | len => exact absurd rfl hlen
  | pid =>
    have hfits := IntType.fits_int32.2 ⟨lock.pid.le_toInt, lock.pid.toInt_lt⟩
    exact read_round_trip_short V lock lock₀ rfl rfl rfl (by decide) hfits

end FlockField

/-- A lock comes back as it was exactly when its start and its length fit 32 bits. -/
theorem flock_round_trip_iff (V : Platform) (lock lock₀ : Flock) :
    V.objectToFlock (flockToObject lock) lock₀ = lock
      ↔ (-2 ^ 31 ≤ lock.start.toInt ∧ lock.start.toInt < 2 ^ 31)
        ∧ (-2 ^ 31 ≤ lock.len.toInt ∧ lock.len.toInt < 2 ^ 31) := by
  have hstart := FlockField.read_round_trip_offset V lock lock₀ (f := .start) rfl rfl rfl
  have hlen := FlockField.read_round_trip_offset V lock lock₀ (f := .len) rfl rfl rfl
  refine ⟨fun h => ⟨hstart.1 ?_, hlen.1 ?_⟩, fun h => FlockField.ext_read fun f => ?_⟩
  · rw [h]
  · rw [h]
  · by_cases hf : f = .start
    · rw [hf]
      exact hstart.2 h.1
    · by_cases hf' : f = .len
      · rw [hf']
        exact hlen.2 h.2
      · exact FlockField.read_round_trip_of_short V lock lock₀ hf hf'

/-- A lock on one byte at 2 GiB comes back as one before the start of the file. -/
theorem lock_beyond_2GiB_moved :
    ((Platform.amd64.objectToFlock (flockToObject ⟨0, 0, 2147483648, 1, 7⟩) default).start.toInt
      = -2147483648)
      ∧ Platform.amd64.objectToFlock (flockToObject ⟨0, 0, 2147483648, 1, 7⟩) default
        ≠ ⟨0, 0, 2147483648, 1, 7⟩ := by
  have hread := FlockField.read_objectToFlock .amd64
    (flockToObject ⟨0, 0, 2147483648, 1, 7⟩) default .start
  have hget : (flockToObject ⟨0, 0, 2147483648, 1, 7⟩).get (FlockField.property .start)
      = .int (Integer.new 2147483648) := rfl
  rw [hget, FlockField.conversion, store_integerNew] at hread
  have hstart := fin_intCast_inj.1 hread
  have hvalue : IntType.int64.wrap (Integer.new 2147483648) = -2147483648 := by decide
  rw [hvalue] at hstart
  refine ⟨hstart, fun h => ?_⟩
  rw [h] at hstart
  exact absurd hstart (by decide)

namespace SetAttr

/-- What the attribute is passed as. -/
def value (st : Stat) : SetAttr → Value
  | mode => .int (Integer.new st.mode.toNat)
  | uid => .int (Integer.new st.uid.toNat)
  | gid => .int (Integer.new st.gid.toNat)
  | size => .int (Number.new st.size.toInt)
  | atime => nodeUnixtimeV8 st.atime.toInt
  | mtime => nodeUnixtimeV8 st.mtime.toInt

theorem mem_all (a : SetAttr) : a ∈ all := by
  cases a <;> decide

theorem key_injective : Function.Injective key := by
  intro a b
  cases a <;> cases b <;> decide

end SetAttr

theorem getAttrsToBeSet_eq (toSet : Int32) (st : Stat) :
    getAttrsToBeSet toSet st = .object (SetAttr.all.flatMap fun a =>
      if toSet &&& a.flag ≠ 0 then [(a.key, a.value st)] else []) := by
  simp only [getAttrsToBeSet, SetAttr.all, List.flatMap_cons, List.flatMap_nil, List.append_nil,
    List.append_assoc]
  rfl

theorem has_getAttrsToBeSet (toSet : Int32) (st : Stat) (name : String) :
    (getAttrsToBeSet toSet st).has name
      ↔ ∃ a : SetAttr, toSet &&& a.flag ≠ 0 ∧ a.field.property = name := by
  rw [getAttrsToBeSet_eq]
  refine (isSome_lookup_selected SetAttr.key (fun a => a.value st)
    (fun a => toSet &&& a.flag ≠ 0) SetAttr.all name).trans ⟨fun h => ?_, fun h => ?_⟩
  · obtain ⟨a, -, ha⟩ := h
    exact ⟨a, ha⟩
  · obtain ⟨a, ha⟩ := h
    exact ⟨a, a.mem_all, ha⟩

theorem get_getAttrsToBeSet {toSet : Int32} (st : Stat) {a : SetAttr}
    (ha : toSet &&& a.flag ≠ 0) : (getAttrsToBeSet toSet st).get a.field.property = a.value st := by
  rw [getAttrsToBeSet_eq]
  have hlookup := lookup_selected SetAttr.key (fun a => a.value st)
    (fun a => toSet &&& a.flag ≠ 0) SetAttr.key_injective a.mem_all ha
  exact congrArg (fun v => Option.getD v .undefined) hlookup

/-- An unsigned 32-bit integer goes out negative from `2 ^ 31` on, and comes back as it was. -/
theorem store_uint32 (V : Platform) (n : UInt32) :
    V.store (.int (Integer.new n.toNat)) (.integer .uint32) = .fin ((n.toNat : ℤ) : ℚ) := by
  have hlt := n.toNat_lt
  rw [store_integerNew, wrap_integerNew (by decide) (IntType.fits_uint32.2 ⟨by omega, by omega⟩)]

theorem store_offset (V : Platform) {x : Int64} (h : |x.toInt| ≤ 2 ^ 53) :
    V.store (.int (Number.new x.toInt)) .offset = .fin (x.toInt : ℤ) := by
  obtain ⟨hle, hlt⟩ := abs_le.1 h
  have hnew : Number.new x.toInt = x.toInt := Double.round_of_le (by omega)
  rw [hnew]
  exact store_int V h (IntType.fits_int64.2 ⟨x.le_toInt, x.toInt_lt⟩)

theorem nodeUnixtimeV8_of_le {t : ℤ} (h : |t| ≤ 8640000000000) :
    nodeUnixtimeV8 t = .date (.fin ((1000 * t : ℤ) : ℚ)) := by
  obtain ⟨hle, hlt⟩ := abs_le.1 h
  have hms : Double.round (1000 * Double.round t) = 1000 * t := by
    rw [Double.round_of_le (n := t) (by omega), Double.round_of_le (by omega)]
  simp only [nodeUnixtimeV8, hms]
  rw [if_pos (by omega)]

/-- Seconds go out as milliseconds and come back as they were, as far as there are dates. -/
theorem store_unixtime (V : Platform) {t : Int64} (h : |t.toInt| ≤ 8640000000000) :
    V.store (nodeUnixtimeV8 t.toInt) .unixtime = .fin (t.toInt : ℤ) := by
  obtain ⟨hle, hlt⟩ := abs_le.1 h
  have hdate := nodeUnixtimeV8_of_le h
  have hnumber : V.numberValue (.date (.fin ((1000 * t.toInt : ℤ) : ℚ)))
      = V.numberValue (.int (1000 * t.toInt)) := by
    rw [numberValue_int]
    exact V.toNumber_date _
  have hstore := store_int V (c := .unixtime) (n := 1000 * t.toInt) (by rw [abs_le]; omega)
    ⟨t.toInt, rfl⟩
  have hcontent : Conversion.unixtime.content (1000 * t.toInt) = t.toInt :=
    Int.mul_ediv_cancel_left _ (by decide)
  rw [hcontent] at hstore
  rw [hdate, Platform.store, Runtime.nodeV8Unixtime, hnumber]
  exact hstore

theorem SetAttr.store_value (V : Platform) (st : Stat) (a : SetAttr)
    (hsize : |st.size.toInt| ≤ 2 ^ 53) (hatime : |st.atime.toInt| ≤ 8640000000000)
    (hmtime : |st.mtime.toInt| ≤ 8640000000000) :
    V.store (a.value st) a.field.conversion = a.field.read st := by
  cases a with
  | mode => exact store_uint32 V st.mode
  | uid => exact store_uint32 V st.uid
  | gid => exact store_uint32 V st.gid
  | size => exact store_offset V hsize
  | atime => exact store_unixtime V hatime
  | mtime => exact store_unixtime V hmtime

/-- The object a `setattr` is passed has the properties the mask selects and no others, and decodes
to the attributes they were made of. -/
theorem attrs_echoed (V : Platform) (toSet : Int32) (st statbuf : Stat)
    (hsize : |st.size.toInt| ≤ 2 ^ 53) (hatime : |st.atime.toInt| ≤ 8640000000000)
    (hmtime : |st.mtime.toInt| ≤ 8640000000000) :
    (∀ name, (getAttrsToBeSet toSet st).has name
        ↔ ∃ a : SetAttr, toSet &&& a.flag ≠ 0 ∧ a.field.property = name)
      ∧ ∀ a : SetAttr, toSet &&& a.flag ≠ 0 →
        a.field.read (V.objectToStat (getAttrsToBeSet toSet st) statbuf) = a.field.read st := by
  refine ⟨has_getAttrsToBeSet toSet st, fun a ha => ?_⟩
  rw [StatField.read_objectToStat, get_getAttrsToBeSet st ha]
  exact a.store_value V st hsize hatime hmtime

/-- The owner of `nobody`, negative as a JavaScript number, a second before the epoch. -/
def nobodyStat : Stat := { (default : Stat) with uid := 4294967294, atime := -1 }

theorem nobody_echoed :
    (getAttrsToBeSet 18 nobodyStat).has "uid"
      ∧ StatField.read (Platform.amd64.objectToStat (getAttrsToBeSet 18 nobodyStat) default) .uid
        = StatField.read nobodyStat .uid := by
  have h := attrs_echoed .amd64 18 nobodyStat default (by decide) (by decide) (by decide)
  exact ⟨(h.1 "uid").2 ⟨.uid, by decide, rfl⟩, h.2 .uid (by decide)⟩

end NodeFuse
