import Mathlib.Tactic.FieldSimp
import NodeFuse.Fields

/-!
# What a decoded field depends on

Every field is stored from one property (`fieldWise`), so it depends on that property alone and on
nothing the structure held. What no decoder stores, the nanoseconds of a `struct stat`, stays as it
was: the `memset` before it clears no more than a pointer's width. The property is the one the field
is named after, but for `f_frsize`, and the store is defined wherever a double has a value in the
integer type it is stored in.
-/

namespace NodeFuse

theorem toNat_toUInt64 (x : Int64) : (x.toUInt64.toNat : ℤ) = x.toInt % 2 ^ 64 := by
  have hnat : x.toUInt64.toNat = x.toBitVec.toNat := rfl
  have hint : x.toInt = x.toBitVec.toInt := rfl
  have hlt := x.toBitVec.isLt
  rw [hint, BitVec.toInt_eq_toNat_bmod, hnat]
  have := Int.bmod_emod (x := (x.toBitVec.toNat : ℤ)) (m := 2 ^ 64)
  push_cast at this ⊢
  omega

theorem toNat_toUInt32 (x : Int64) : (x.toUInt64.toUInt32.toNat : ℤ) = x.toInt % 2 ^ 32 := by
  rw [UInt64.toNat_toUInt32]
  push_cast
  rw [toNat_toUInt64]
  omega

theorem wrap_int64 (x : Int64) : IntType.int64.wrap x.toInt = x.toInt :=
  IntType.int64.wrap_of_fits (IntType.fits_int64.2 ⟨x.le_toInt, x.toInt_lt⟩)

section Stores

variable (V : Platform) (obj : Value)

theorem StatField.read_objectToStat (s : Stat) (f : StatField) :
    read (V.objectToStat obj s) f = V.store (obj.get f.property) f.conversion := by
  cases f with
  | dev | ino | nlink | rdev => exact congrArg (fun n : ℤ => Num.fin n) (toNat_toUInt64 _)
  | mode | uid | gid => exact congrArg (fun n : ℤ => Num.fin n) (toNat_toUInt32 _)
  | blksize | blocks => exact congrArg (fun n : ℤ => Num.fin n) (wrap_int64 _).symm
  | size | atime | mtime | ctime => rfl

theorem StatVfsField.read_objectToStatVfs (s : StatVfs) (f : StatVfsField) :
    read (V.objectToStatVfs obj s) f = V.store (obj.get f.property) f.conversion := by
  cases f with
  | blocks | bfree | bavail | files | ffree =>
    exact congrArg (fun n : ℤ => Num.fin n) (toNat_toUInt64 _)
  | bsize | frsize | favail | fsid | flag | namemax => rfl

theorem FlockField.read_objectToFlock (l : Flock) (f : FlockField) :
    read (V.objectToFlock obj l) f = V.store (obj.get f.property) f.conversion := by
  cases f with
  | type | whence => exact congrArg (fun n : ℤ => Num.fin n) (Int64.toInt_toInt16 _)
  | start | len => exact congrArg (fun n : ℤ => Num.fin n) (wrap_int64 _).symm
  | pid => exact congrArg (fun n : ℤ => Num.fin n) (Int64.toInt_toInt32 _)

theorem EntryField.read_objectToFuseEntryParam {e e' : FuseEntryParam}
    (h : V.objectToFuseEntryParam obj e = some e') (f : EntryField) :
    read e' f = V.store (f.value obj) f.conversion := by
  obtain ⟨attr, hattr, rfl⟩ := Option.map_eq_some_iff.1 h
  cases f with
  | ino | generation => exact congrArg (fun n : ℤ => Num.fin n) (toNat_toUInt64 _)
  | attrTimeout | entryTimeout => rfl
  | attr f =>
    -- an object is its own `ToObject`
    have hself : attr = obj.get "attr" := by
      unfold Value.toObject at hattr
      split at hattr
      · cases hattr
      · cases hattr
      · exact (Option.some.inj hattr).symm
    rw [hself]
    exact f.read_objectToStat V _ _

end Stores

/-- Every decoder fills each field from one value of the object. -/
theorem fieldWise (V : Platform) (d : Decoder) :
    FieldWise (d.decode V) d.read d.value fun f v => V.store v (d.conversion f) := by
  refine ⟨fun {obj s s'} f h => ?_⟩
  cases d with
  | stat =>
    obtain rfl := Option.some.inj h
    exact StatField.read_objectToStat V obj s f
  | statVfs =>
    obtain rfl := Option.some.inj h
    exact StatVfsField.read_objectToStatVfs V obj s f
  | flock =>
    obtain rfl := Option.some.inj h
    exact FlockField.read_objectToFlock V obj s f
  | fuseEntryParam => exact EntryField.read_objectToFuseEntryParam V obj h f

theorem sent_objectToStat_iff (V : Runtime) (obj : Value) (s₁ s₂ : Stat) :
    (V.objectToStat obj s₁).sent = (V.objectToStat obj s₂).sent ↔ s₁.nsecs = s₂.nsecs := by
  simp [Runtime.objectToStat, Stat.sent, Stat.nsecs]

theorem sent_objectToFuseEntryParam_iff (V : Runtime) (obj : Value) (e₁ e₂ : FuseEntryParam) :
    (V.objectToFuseEntryParam obj e₁).map FuseEntryParam.sent
        = (V.objectToFuseEntryParam obj e₂).map FuseEntryParam.sent
      ↔ ((obj.get "attr").toObject.isSome → e₁.attr.nsecs = e₂.attr.nsecs) := by
  unfold Runtime.objectToFuseEntryParam
  rcases (obj.get "attr").toObject with _ | attr
  · simp
  · rw [← sent_objectToStat_iff V attr]
    simp [FuseEntryParam.sent]

theorem objectToStatVfs_const (V : Platform) (obj : Value) (v₁ v₂ : StatVfs) :
    V.objectToStatVfs obj v₁ = V.objectToStatVfs obj v₂ := rfl

theorem objectToFlock_const (V : Runtime) (obj : Value) (l₁ l₂ : Flock) :
    V.objectToFlock obj l₁ = V.objectToFlock obj l₂ := rfl

/-- What a decoder makes of an object and sends does not depend on what its structure held exactly
where two contents agree in the nanoseconds of their `struct stat`, if it has one. -/
theorem sent_independent_iff (V : Platform) (obj : Value) (s₁ s₂ : Stat) (e₁ e₂ : FuseEntryParam)
    (v₁ v₂ : StatVfs) (l₁ l₂ : Flock) :
    ((V.objectToStat obj s₁).sent = (V.objectToStat obj s₂).sent ↔ s₁.nsecs = s₂.nsecs)
      ∧ ((V.objectToFuseEntryParam obj e₁).map FuseEntryParam.sent
          = (V.objectToFuseEntryParam obj e₂).map FuseEntryParam.sent
        ↔ ((obj.get "attr").toObject.isSome → e₁.attr.nsecs = e₂.attr.nsecs))
      ∧ V.objectToStatVfs obj v₁ = V.objectToStatVfs obj v₂
      ∧ V.objectToFlock obj l₁ = V.objectToFlock obj l₂ :=
  ⟨sent_objectToStat_iff V.toRuntime obj s₁ s₂,
    sent_objectToFuseEntryParam_iff V.toRuntime obj e₁ e₂, objectToStatVfs_const V obj v₁ v₂,
    objectToFlock_const V.toRuntime obj l₁ l₂⟩

/-- A nanosecond part that was on the stack is sent as that of the file. -/
theorem stale_nanoseconds_sent :
    (Platform.amd64.objectToStat (.object []) default).sent
      ≠ (Platform.amd64.objectToStat (.object []) { (default : Stat) with mtimeNsec := 1 }).sent := by
  intro h
  have hnsecs := (sent_objectToStat_iff _ _ _ _).1 h
  exact absurd hnsecs (by decide)

/-! ## Whose property it is -/

/-- The integer the field holds of a number of its domain. -/
def Conversion.content (n : ℤ) : Conversion → ℤ
  | .unixtime => n / 1000
  | _ => n

theorem trunc_div_thousand {n : ℤ} (h : 1000 ∣ n) : Num.trunc ((n : ℚ) / 1000) = n / 1000 := by
  obtain ⟨k, rfl⟩ := h
  have hk : (((1000 * k : ℤ) : ℚ) / 1000) = (k : ℚ) := by
    push_cast
    field_simp
  rw [hk, Runtime.trunc_intCast]
  omega

theorem numberValue_int (V : Platform) (n : ℤ) : V.numberValue (.int n) = .fin (n : ℚ) :=
  V.toNumber_number _

theorem store_int (V : Platform) {c : Conversion} {n : ℤ} (hn : |n| ≤ 2 ^ 53) (h : c.Holds n) :
    V.store (.int n) c = .fin (c.content n : ℤ) := by
  obtain ⟨hle, hlt⟩ := abs_le.1 hn
  have htrunc := Runtime.trunc_intCast n
  cases c with
  | integer t =>
    have hint : V.integerValue (.int n) = Int64.ofInt n :=
      V.integerValue_int (by omega) (by omega)
    rw [Platform.store, hint, Int64.toInt_ofInt_of_le (by omega) (by omega), t.wrap_of_fits h]
    rfl
  | offset =>
    have hcast := V.castInt64_fin (n : ℚ)
    rw [htrunc] at hcast
    rw [Platform.store, numberValue_int, hcast (by omega) (by omega),
      Int64.toInt_ofInt_of_le (by omega) (by omega)]
    rfl
  | unsignedLong =>
    obtain ⟨hpos, -⟩ := IntType.fits_uint64.1 h
    have hcast := V.castUInt64_fin (n : ℚ)
    rw [htrunc] at hcast
    rw [Platform.store, numberValue_int, hcast hpos (by omega), UInt64.toNat_ofNat',
      Nat.mod_eq_of_lt (by omega), Int.toNat_of_nonneg hpos]
    rfl
  | double => exact numberValue_int V n
  | unixtime =>
    have hcast := V.castInt64_fin ((n : ℚ) / 1000)
    rw [trunc_div_thousand h] at hcast
    rw [Platform.store, Runtime.nodeV8Unixtime, numberValue_int, Num.div1000,
      hcast (by omega) (by omega), Int64.toInt_ofInt_of_le (by omega) (by omega)]
    rfl

theorem content_injOn {c : Conversion} {n m : ℤ} (hn : c.Holds n) (hm : c.Holds m)
    (h : c.content n = c.content m) : n = m := by
  cases c with
  | unixtime => exact Int.ediv_left_inj hn hm |>.1 h
  | integer | offset | unsignedLong | double => exact h

theorem store_injOn (V : Platform) (c : Conversion) :
    Set.InjOn (fun v => V.store v c) c.domain := by
  rintro _ ⟨n, rfl, hn, hcn⟩ _ ⟨m, rfl, hm, hcm⟩ h
  simp only [store_int V hn hcn, store_int V hm hcm, Num.fin.injEq, Int.cast_inj] at h
  rw [content_injOn hcn hcm h]

instance : (d : Decoder) → Inhabited d.Struct
  | .stat => inferInstanceAs (Inhabited Stat)
  | .statVfs => inferInstanceAs (Inhabited StatVfs)
  | .flock => inferInstanceAs (Inhabited Flock)
  | .fuseEntryParam => inferInstanceAs (Inhabited FuseEntryParam)

theorem decode_isSome (V : Platform) {d : Decoder} {obj : Value} (h : d.InDomain obj)
    (s : d.Struct) : (d.decode V obj s).isSome := by
  cases d with
  | stat | statVfs | flock => rfl
  | fuseEntryParam =>
    obtain ⟨n, hn, -⟩ := h (EntryField.attr .dev)
    show (V.objectToFuseEntryParam obj s).isSome
    unfold Runtime.objectToFuseEntryParam
    rw [Option.isSome_map]
    -- nothing is read from `undefined` and `null`
    cases hattr : obj.get "attr" with
    | undefined | null =>
      have hget : (obj.get "attr").get "dev" = .int n := hn
      rw [hattr] at hget
      cases hget
    | _ => rfl

theorem value_mem_domain {d : Decoder} {obj : Value} (h : d.InDomain obj) (f : d.Field) :
    d.value obj f ∈ (d.conversion f).domain := by
  cases d with
  | stat | flock | fuseEntryParam => exact h f
  | statVfs =>
    cases f with
    | frsize => exact h StatVfsField.blocks
    | _ => exact h _

theorem read_eq_iff (V : Platform) {d : Decoder} {o₁ o₂ : Value} (h₁ : d.InDomain o₁)
    (h₂ : d.InDomain o₂) (f : d.Field) {s₁ s₂ t₁ t₂ : d.Struct}
    (ht₁ : d.decode V o₁ s₁ = some t₁) (ht₂ : d.decode V o₂ s₂ = some t₂) :
    d.read t₁ f = d.read t₂ f ↔ d.value o₁ f = d.value o₂ f :=
  (fieldWise V d).read_eq_iff (store_injOn V (d.conversion f)) ht₁ ht₂ (value_mem_domain h₁ f)
    (value_mem_domain h₂ f)

theorem ownProperty_iff_value (V : Platform) {d : Decoder} {o₁ o₂ : Value} (h₁ : d.InDomain o₁)
    (h₂ : d.InDomain o₂) (f : d.Field) :
    d.OwnProperty V o₁ o₂ f
      ↔ (d.named o₁ f = d.named o₂ f ↔ d.value o₁ f = d.value o₂ f) := by
  refine ⟨fun h => ?_, fun h s₁ s₂ t₁ t₂ ht₁ ht₂ => ?_⟩
  · obtain ⟨t₁, ht₁⟩ := Option.isSome_iff_exists.1 (decode_isSome V h₁ default)
    obtain ⟨t₂, ht₂⟩ := Option.isSome_iff_exists.1 (decode_isSome V h₂ default)
    obtain ⟨heq, hne⟩ := h _ _ t₁ t₂ ht₁ ht₂
    rw [← read_eq_iff V h₁ h₂ f ht₁ ht₂]
    exact ⟨heq, not_imp_not.1 hne⟩
  · rw [Ne, Ne, read_eq_iff V h₁ h₂ f ht₁ ht₂, h]
    exact ⟨id, id⟩

/-- A field holds its own property, and no other, except that `f_frsize` holds `blocks`. -/
theorem own_property_iff (V : Platform) (d : Decoder) (o₁ o₂ : Value) (h₁ : d.InDomain o₁)
    (h₂ : d.InDomain o₂) (f : d.Field) :
    d.OwnProperty V o₁ o₂ f ↔ d.FrsizeWithBlocks o₁ o₂ f := by
  rw [ownProperty_iff_value V h₁ h₂]
  cases d with
  | stat | flock | fuseEntryParam => exact iff_of_true Iff.rfl trivial
  | statVfs =>
    cases f with
    | frsize => exact ⟨fun h _ => h, fun h => h rfl⟩
    | _ => exact iff_of_true Iff.rfl fun h => by cases h

/-- A read lock on the bytes from `start` on. -/
def readLock (start : ℤ) : Value :=
  .object [("type", .int 0), ("whence", .int 0), ("start", .int start), ("len", .int 0),
    ("pid", .int 7)]

theorem readLock_inDomain {start : ℤ} (h : |start| ≤ 2 ^ 53) :
    Decoder.flock.InDomain (readLock start) := by
  intro f
  cases f with
  | start =>
    obtain ⟨hle, hlt⟩ := abs_le.1 h
    exact ⟨start, rfl, h, IntType.fits_int64.2 ⟨by omega, by omega⟩⟩
  | type | whence | len => exact ⟨0, rfl, by norm_num, by decide⟩
  | pid => exact ⟨7, rfl, by norm_num, by decide⟩

theorem lock_start_own_property :
    Decoder.flock.OwnProperty .amd64 (readLock 0) (readLock 4096) FlockField.start :=
  (own_property_iff .amd64 .flock (readLock 0) (readLock 4096)
    (readLock_inDomain (by norm_num)) (readLock_inDomain (by norm_num)) FlockField.start).2 trivial

/-- A filesystem of so many blocks, with fragments of 512 bytes. -/
def statVfsOf (blocks : ℤ) : Value :=
  .object [("bsize", .int 4096), ("frsize", .int 512), ("blocks", .int blocks), ("bfree", .int 0),
    ("bavail", .int 0), ("files", .int 0), ("ffree", .int 0), ("favail", .int 0), ("fsid", .int 0),
    ("flag", .int 0), ("namemax", .int 255)]

/-- Two filesystems with the same fragment size decode to different ones. -/
theorem frsize_is_blocks :
    Decoder.statVfs.InDomain (statVfsOf 1) ∧ Decoder.statVfs.InDomain (statVfsOf 2)
      ∧ ¬ Decoder.statVfs.OwnProperty .amd64 (statVfsOf 1) (statVfsOf 2) StatVfsField.frsize := by
  have hdomain : ∀ n : ℤ, n ∈ ([1, 2] : List ℤ) → Decoder.statVfs.InDomain (statVfsOf n) := by
    intro n hn f
    simp only [List.mem_cons, List.not_mem_nil, or_false] at hn
    rcases hn with rfl | rfl <;> cases f <;>
      exact ⟨_, rfl, by norm_num, by decide⟩
  have h₁ := hdomain 1 (by simp)
  have h₂ := hdomain 2 (by simp)
  refine ⟨h₁, h₂, fun h => ?_⟩
  have hiff := (ownProperty_iff_value .amd64 h₁ h₂ StatVfsField.frsize).1 h
  have hblocks : Value.int 1 = Value.int 2 := hiff.1 rfl
  cases hblocks

/-! ## Absent and extreme properties -/

/-- What a property must be for its store to be defined, and 0 if it is absent. -/
def Value.Meets (v : Value) : Conversion → Prop
  | .integer _ => ∀ x, v = .number x → x.InRange .int64
  | .offset => v.Fits .int64 1
  | .unsignedLong => v.Fits .uint64 1
  | .double => v ≠ .undefined
  | .unixtime => v.Fits .int64 1000

theorem number_fits_iff (t : IntType) (q d : ℚ) :
    (Value.number (.fin q)).Fits t d ↔ t.Fits (Num.trunc (q / d)) := by
  simp [Value.Fits]

theorem numberValue_undefined (V : Platform) : V.numberValue .undefined = .nan :=
  V.toNumber_undefined

theorem integerSource_undefined (V : Platform) : V.integerSource .undefined = .fin 0 := by
  show (V.toNumber .undefined).toInteger = .fin 0
  rw [V.toNumber_undefined]
  rfl

theorem integerValue_undefined (V : Platform) : V.integerValue .undefined = 0 := by
  have hcast := V.castInt64_fin 0
  have hzero : Num.trunc (0 : ℚ) = 0 := Runtime.trunc_intCast 0
  rw [hzero] at hcast
  show V.castInt64 (V.toNumber .undefined).toInteger = 0
  rw [V.toNumber_undefined]
  exact hcast (by decide) (by decide)

/-- Where the property is absent, the store is defined and 0 only if it goes through
`IntegerValue`. -/
theorem meets_undefined_iff (V : Platform) (c : Conversion) :
    V.Defined .undefined c ∧ V.store .undefined c = .fin 0 ↔ Value.Meets .undefined c := by
  have hnumber := numberValue_undefined V
  cases c with
  | integer t =>
    refine iff_of_true ⟨?_, ?_⟩ fun x hx => by cases hx
    · show (V.integerSource .undefined).InRange .int64
      rw [integerSource_undefined]
      exact IntType.int64.fits_zero
    · rw [Platform.store, integerValue_undefined]
      exact congrArg (fun n : ℤ => Num.fin n) (t.wrap_of_fits t.fits_zero)
  | offset | unsignedLong | unixtime =>
    refine iff_of_false (fun h => ?_) fun h => ?_
    · have hdefined := h.1
      unfold Platform.Defined at hdefined
      rw [hnumber] at hdefined
      exact hdefined
    · obtain ⟨q, hq, -⟩ := h
      cases hq
  | double =>
    refine iff_of_false (fun h => ?_) fun h => h rfl
    have hstore : V.numberValue .undefined = .fin 0 := h.2
    rw [hnumber] at hstore
    cases hstore

theorem defined_number_iff (V : Platform) (q : ℚ) (c : Conversion) :
    V.Defined (.number (.fin q)) c ↔ (Value.number (.fin q)).Meets c := by
  have hnumber : V.numberValue (.number (.fin q)) = .fin q := V.toNumber_number _
  cases c with
  | integer t =>
    refine ⟨fun h x hx => ?_, fun h => h _ rfl⟩
    rw [← Value.number.inj hx]
    exact h
  | offset | unsignedLong =>
    rw [Platform.Defined, Value.Meets, number_fits_iff, div_one, hnumber]
    rfl
  | double => exact iff_of_true trivial fun h => by cases h
  | unixtime =>
    rw [Platform.Defined, Value.Meets, number_fits_iff, hnumber]
    rfl

/-- The store of a property that is absent or finite is defined, and 0 if it is absent, exactly
where the property is what the conversion needs. -/
theorem meets_iff (V : Platform) {v : Value} (hv : v.Plain) (c : Conversion) :
    V.Defined v c ∧ (v = .undefined → V.store v c = .fin 0) ↔ v.Meets c := by
  rcases hv with rfl | ⟨q, rfl⟩
  · rw [← meets_undefined_iff V]
    exact and_congr_right fun _ => ⟨fun h => h rfl, fun h _ => h⟩
  · rw [← defined_number_iff V]
    exact and_iff_left fun h => by cases h

theorem definedOn_iff_store (V : Platform) (d : Decoder) (obj : Value) :
    d.DefinedOn V obj ↔ (∀ s, (d.decode V obj s).isSome)
      ∧ ∀ f, V.Defined (d.value obj f) (d.conversion f)
        ∧ (d.named obj f = .undefined → V.store (d.value obj f) (d.conversion f) = .fin 0) := by
  refine ⟨fun h => ⟨fun s => ?_, fun f => ?_⟩, fun h s => ?_⟩
  · obtain ⟨t, ht, -⟩ := h s
    rw [ht]
    rfl
  · obtain ⟨t, ht, hfields⟩ := h default
    rw [← (fieldWise V d).read_eq f ht]
    exact hfields f
  · obtain ⟨t, ht⟩ := Option.isSome_iff_exists.1 (h.1 s)
    refine ⟨t, ht, fun f => ?_⟩
    rw [(fieldWise V d).read_eq f ht]
    exact h.2 f

@[simp] theorem integersInRange_nil (obj : Value) : IntegersInRange obj [] :=
  fun _ hp => absurd hp List.not_mem_nil

@[simp] theorem integersInRange_cons (obj : Value) (p : String) (ps : List String) :
    IntegersInRange obj (p :: ps)
      ↔ (∀ x, obj.get p = .number x → x.InRange .int64) ∧ IntegersInRange obj ps :=
  List.forall_mem_cons

theorem statDecodable_iff (obj : Value) :
    (∀ f : StatField, (obj.get f.property).Meets f.conversion) ↔ StatDecodable obj := by
  refine ⟨fun h => ⟨h .size, ?_, ?_⟩, fun h f => ?_⟩
  · simp only [List.forall_mem_cons, List.not_mem_nil, false_implies, implies_true, and_true]
    exact ⟨h .atime, h .mtime, h .ctime⟩
  · simp only [integersInRange_cons, integersInRange_nil, and_true]
    exact ⟨h .dev, h .ino, h .mode, h .nlink, h .uid, h .gid, h .rdev, h .blksize, h .blocks⟩
  · cases f with
    | size => exact h.size
    | atime | mtime | ctime => exact h.times _ (by simp [StatField.property])
    | _ => exact h.integers _ (by simp [StatField.property])

/-- `f_frsize` is 0 without a `frsize` exactly where `blocks` has no integral part. -/
theorem frsize_iff (V : Platform) {obj : Value} (hblocks : (obj.get "blocks").Plain) :
    V.Defined (obj.get "blocks") .unsignedLong
        ∧ (obj.get "frsize" = .undefined → V.store (obj.get "blocks") .unsignedLong = .fin 0)
      ↔ (obj.get "blocks").Fits .uint64 1 ∧ (obj.get "frsize" = .undefined →
        ∀ q, obj.get "blocks" = .number (.fin q) → Num.trunc q = 0) := by
  rcases hblocks with hv | ⟨q, hv⟩
  · rw [hv]
    refine iff_of_false (fun h => ?_) fun h => ?_
    · have hdefined := h.1
      unfold Platform.Defined at hdefined
      rw [numberValue_undefined] at hdefined
      exact hdefined
    · obtain ⟨⟨q, hq, -⟩, -⟩ := h
      cases hq
  · have hdefined := defined_number_iff V q .unsignedLong
    rw [hv, hdefined]
    refine and_congr_right fun hfits => imp_congr_right fun _ => ?_
    have hq := (number_fits_iff .uint64 q 1).1 hfits
    rw [div_one] at hq
    obtain ⟨hpos, hlt⟩ := IntType.fits_uint64.1 hq
    have hcast := V.castUInt64_fin q hpos hlt
    have hnumber : V.numberValue (.number (.fin q)) = .fin q := V.toNumber_number _
    rw [Platform.store, hnumber, hcast, UInt64.toNat_ofNat', Nat.mod_eq_of_lt (by omega),
      Int.toNat_of_nonneg hpos, Num.fin.injEq, Int.cast_eq_zero]
    refine ⟨fun h p hp => ?_, fun h => h q rfl⟩
    rw [← Num.fin.inj (Value.number.inj hp)]
    exact h

theorem StatVfsField.property_eq_name {f : StatVfsField} (h : f ≠ .frsize) :
    f.property = f.name := by
  cases f with
  | frsize => exact absurd rfl h
  | _ => rfl

theorem statVfsDecodable_iff (V : Platform) {obj : Value}
    (hplain : ∀ f : StatVfsField, (obj.get f.name).Plain) :
    (∀ f : StatVfsField, V.Defined (obj.get f.property) f.conversion
        ∧ (obj.get f.name = .undefined → V.store (obj.get f.property) f.conversion = .fin 0))
      ↔ StatVfsDecodable obj := by
  have hfrsize := frsize_iff V (hplain .blocks)
  have hown : ∀ f : StatVfsField, f ≠ .frsize →
      ((V.Defined (obj.get f.property) f.conversion
        ∧ (obj.get f.name = .undefined → V.store (obj.get f.property) f.conversion = .fin 0))
          ↔ (obj.get f.name).Meets f.conversion) := by
    intro f hf
    rw [StatVfsField.property_eq_name hf]
    exact meets_iff V (hplain f) _
  refine ⟨fun h => ⟨?_, ?_, (hfrsize.1 (h .frsize)).2⟩, fun h f => ?_⟩
  · have hlong := fun f hf => (hown f hf).1 (h f)
    simp only [List.forall_mem_cons, List.not_mem_nil, false_implies, implies_true, and_true]
    exact ⟨hlong .bsize nofun, (hfrsize.1 (h .frsize)).1, hlong .favail nofun, hlong .fsid nofun,
      hlong .flag nofun, hlong .namemax nofun⟩
  · have hint := fun f hf => (hown f hf).1 (h f)
    simp only [integersInRange_cons, integersInRange_nil, and_true]
    exact ⟨hint .blocks nofun, hint .bfree nofun, hint .bavail nofun, hint .files nofun,
      hint .ffree nofun⟩
  · cases f with
    | frsize => exact hfrsize.2 ⟨h.longs _ (by simp), h.frsize⟩
    | blocks | bfree | bavail | files | ffree =>
      refine (hown _ ?_).2 (h.integers _ (by simp [StatVfsField.name]))
      exact nofun
    | _ =>
      refine (hown _ ?_).2 (h.longs _ (by simp [StatVfsField.name]))
      exact nofun

theorem flockDecodable_iff (obj : Value) :
    (∀ f : FlockField, (obj.get f.property).Meets f.conversion)
      ↔ IntegersInRange obj ["type", "whence", "start", "len", "pid"] := by
  refine ⟨fun h => ?_, fun h f => ?_⟩
  · simp only [integersInRange_cons, integersInRange_nil, and_true]
    exact ⟨h .type, h .whence, h .start, h .len, h .pid⟩
  · cases f <;> exact h _ (by simp [FlockField.property])

theorem entryDecodable_iff (obj : Value) :
    (∀ f : EntryField, (f.value obj).Meets f.conversion) ↔ EntryDecodable obj := by
  refine ⟨fun h => ⟨?_, ?_, ?_⟩, fun h f => ?_⟩
  · simp only [List.forall_mem_cons, List.not_mem_nil, false_implies, implies_true, and_true]
    exact ⟨h .attrTimeout, h .entryTimeout⟩
  · simp only [integersInRange_cons, integersInRange_nil, and_true]
    exact ⟨h .ino, h .generation⟩
  · exact (statDecodable_iff _).1 fun f => h (.attr f)
  · cases f with
    | ino | generation => exact h.integers _ (by simp)
    | attrTimeout | entryTimeout => exact h.timeouts _ (by simp)
    | attr f => exact (statDecodable_iff _).2 h.attr f

theorem decode_isSome_of_entryDecodable (V : Platform) {obj : Value} (h : EntryDecodable obj)
    (e : FuseEntryParam) : (V.objectToFuseEntryParam obj e).isSome := by
  unfold Runtime.objectToFuseEntryParam
  rw [Option.isSome_map]
  obtain ⟨q, hsize, -⟩ := h.attr.size
  cases hattr : obj.get "attr" with
  | undefined | null =>
    rw [hattr] at hsize
    cases hsize
  | _ => rfl

/-- An object whose properties are absent or finite is decoded without an undefined cast, and with 0
for what is absent, exactly where what goes through `NumberValue` is there and in range, what goes
through `IntegerValue` has an `int64_t`, and without a `frsize` there are no `blocks`. -/
theorem definedOn_iff (V : Platform) (d : Decoder) (obj : Value)
    (hplain : ∀ f, (d.named obj f).Plain) : d.DefinedOn V obj ↔ d.Decodable obj := by
  rw [definedOn_iff_store V d obj]
  cases d with
  | stat =>
    refine (and_iff_right fun _ => rfl).trans (Iff.trans ?_ (statDecodable_iff obj))
    exact forall_congr' fun f => meets_iff V (hplain f) _
  | statVfs => exact (and_iff_right fun _ => rfl).trans (statVfsDecodable_iff V hplain)
  | flock =>
    refine (and_iff_right fun _ => rfl).trans (Iff.trans ?_ (flockDecodable_iff obj))
    exact forall_congr' fun f => meets_iff V (hplain f) _
  | fuseEntryParam =>
    have hfields := forall_congr' fun f => meets_iff V (hplain f) (EntryField.conversion f)
    refine ⟨fun h => (entryDecodable_iff obj).1 (hfields.1 h.2), fun h => ⟨?_, ?_⟩⟩
    · exact decode_isSome_of_entryDecodable V h
    · exact hfields.2 ((entryDecodable_iff obj).2 h)

theorem plain_int (n : ℤ) : (Value.int n).Plain := .inr ⟨n, rfl⟩

theorem int_fits {t : IntType} {n : ℤ} (h : t.Fits n) : (Value.int n).Fits t 1 := by
  refine ⟨n, rfl, ?_⟩
  rw [div_one, Runtime.trunc_intCast]
  exact h

/-- A file at the epoch of which nothing else is known. -/
def sizedAttr : Value :=
  .object [("size", .int 13), ("atime", .int 0), ("mtime", .int 0), ("ctime", .int 0)]

theorem sizedAttr_defined : Decoder.stat.DefinedOn .amd64 sizedAttr := by
  refine (definedOn_iff .amd64 .stat sizedAttr fun f => ?_).2 ⟨?_, ?_, ?_⟩
  · cases f with
    | size => exact plain_int 13
    | atime | mtime | ctime => exact plain_int 0
    | _ => exact .inl rfl
  · exact int_fits (by decide)
  · have hzero : (Value.int 0).Fits .int64 1000 := by
      refine ⟨0, rfl, ?_⟩
      rw [zero_div]
      decide
    simp only [List.forall_mem_cons, List.not_mem_nil, false_implies, implies_true, and_true]
    exact ⟨hzero, hzero, hzero⟩
  · simp only [integersInRange_cons, integersInRange_nil, and_true]
    and_intros <;> exact nofun

/-- The attributes `examples/loopback.js` gives a directory, which has no times there. -/
def directoryAttr : Value :=
  .object [("ino", .int 1), ("mode", .int 16877), ("nlink", .int 1), ("size", .int 13)]

theorem directoryAttr_plain (f : StatField) : (directoryAttr.get f.property).Plain := by
  cases f with
  | mode => exact plain_int 16877
  | nlink => exact plain_int 1
  | size => exact plain_int 13
  | _ => exact .inl rfl

/-- The time of the last access is cast from NaN. -/
theorem absent_times_undefined :
    (∀ f : StatField, (directoryAttr.get f.property).Plain)
      ∧ ¬ Decoder.stat.DefinedOn .amd64 directoryAttr := by
  refine ⟨directoryAttr_plain, fun h => ?_⟩
  obtain ⟨t, -, hfields⟩ := h default
  exact (hfields StatField.atime).1

end NodeFuse
