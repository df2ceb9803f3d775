import NodeFuse.Options
import NodeFuse.Proofs.Arguments

/-!
# Which options arrive

The counter agrees with the array from two options on and while it fits an `int`. With one option the
counter stops before `--help` and takes in a hole, with none it does not start.
-/

namespace NodeFuse.Options

theorem foldl_fuseOptAddArg (f : ℕ → List UInt8) : ∀ (is : List ℕ) (fargs : List (List UInt8)),
    is.foldl (fun fargs i => fuseOptAddArg fargs (f i)) fargs
      = fargs ++ is.map fun i => cstring (f i)
  | [], fargs => (List.append_nil fargs).symm
  | i :: is, fargs => by
    rw [List.foldl_cons, foldl_fuseOptAddArg f is, fuseOptAddArg, List.append_assoc]
    rfl

theorem getString_map_some {strings : List (List UInt8)} {i : ℕ} (h : i < strings.length) :
    JsArray.getString (strings.map some) i = strings[i] := by
  unfold JsArray.getString
  rw [List.getElem?_map, List.getElem?_eq_getElem h]
  rfl

theorem map_range'_getString (strings : List (List UInt8)) :
    (List.range' 1 (strings.length - 1)).map
        (fun i => cstring (JsArray.getString (strings.map some) i))
      = (strings.drop 1).map cstring := by
  refine List.ext_getElem (by simp) fun i h _ => ?_
  simp only [List.length_map, List.length_range'] at h
  simp only [List.getElem_map, List.getElem_range', List.getElem_drop, one_mul]
  rw [getString_map_some (by omega)]

theorem addOptions_eq {argc : Int32} {n : ℕ} (h : argc.toInt - 1 = n) (options : JsArray) :
    addOptions options argc
      = (List.range' 1 n).map fun i => cstring (JsArray.getString options i) := by
  unfold addOptions
  rw [h, Int.toNat_natCast, foldl_fuseOptAddArg, List.nil_append]

theorem lt_three_iff (argc : Int32) : argc < 3 ↔ argc.toInt < 3 := by
  rw [Int32.lt_iff_toInt_lt]
  rfl

theorem toInt_argc_of_le {n : ℕ} (h : 2 ^ 31 ≤ n) (hlt : n < 2 ^ 32) :
    (Int32.ofNat n).toInt = n - 2 ^ 32 := by
  rw [Int32.toInt_ofNat', show Int32.size = 2 ^ 32 from rfl, Int.bmod_def]
  split_ifs <;> omega

namespace Given

variable (options : Given)

theorem length_array : options.array.length = options.strings.length := List.length_map _

theorem passed_of_three_le (h : 3 ≤ options.strings.length) (hlt : options.strings.length < 2 ^ 31) :
    options.passed = (options.strings.drop 1).map cstring := by
  have hargc : (Int32.ofNat options.strings.length).toInt = options.strings.length :=
    Int32.toInt_ofNat_of_lt hlt
  unfold passed mount
  rw [length_array, if_neg (by rw [lt_three_iff, hargc]; omega),
    addOptions_eq (n := options.strings.length - 1) (by rw [hargc]; omega)]
  exact map_range'_getString options.strings

/-- The counter of an array too long for it is negative. -/
theorem passed_of_wrapped (h : 2 ^ 31 ≤ options.strings.length) : options.passed = [] := by
  have hlt := options.length_lt
  have hargc := toInt_argc_of_le h hlt
  have hnext : (Int32.ofNat options.strings.length + 1).toInt
      = options.strings.length - 2 ^ 32 + 1 := by
    rw [Int32.toInt_add, hargc, show (1 : Int32).toInt = 1 from rfl, Int.bmod_def]
    split_ifs <;> omega
  unfold passed mount
  rw [length_array, if_pos (by rw [lt_three_iff, hargc]; omega)]
  unfold addOptions
  rw [hnext, Int.toNat_of_nonpos (by omega)]
  rfl

theorem passed_nil (h : options.strings = []) : options.passed = [] := by
  unfold passed array
  rw [h]
  rfl

/-- The one argument is the hole before `--help`. -/
theorem passed_singleton {o : List UInt8} (h : options.strings = [o]) :
    options.passed = [JsArray.undefined] := by
  unfold passed array
  rw [h]
  rfl

theorem passed_pair {o₁ o₂ : List UInt8} (h : options.strings = [o₁, o₂]) :
    options.passed = [cstring o₂, help] := by
  unfold passed array
  rw [h]
  rfl

theorem map_cstring_eq_iff (os : List (List UInt8)) :
    os.map cstring = os ↔ ∀ o ∈ os, 0 ∉ o := by
  have hmap : os.map cstring = os ↔ ∀ o ∈ os, cstring o = o := by
    conv_lhs => rw [← List.map_id os, List.map_map]
    exact List.map_inj_left
  rw [hmap]
  exact forall₂_congr fun o _ => cstring_eq_self_iff o

theorem passed_eq_expected_iff : options.passed = options.expected
    ↔ (2 ≤ options.strings.length ∧ options.strings.length < 2 ^ 31)
      ∧ ∀ o ∈ options.strings.drop 1, 0 ∉ o := by
  by_cases hwrapped : 2 ^ 31 ≤ options.strings.length
  · rw [passed_of_wrapped options hwrapped]
    refine iff_of_false (fun h => ?_) fun h => by omega
    have hlen := congrArg List.length h
    unfold expected at hlen
    rw [List.length_append, List.length_drop, List.length_nil] at hlen
    omega
  rcases hstrings : options.strings with _ | ⟨o₁, _ | ⟨o₂, _ | ⟨o₃, rest⟩⟩⟩
  · rw [passed_nil options hstrings]
    unfold expected
    simp [hstrings]
  · have hexpected : options.expected = [help] := by
      unfold expected
      rw [hstrings]
      rfl
    rw [passed_singleton options hstrings, hexpected, List.singleton_inj]
    refine iff_of_false (by decide) fun h => ?_
    exact absurd h.1.1 (by simp)
  · rw [passed_pair options hstrings]
    unfold expected
    rw [hstrings]
    simp [cstring_eq_self_iff]
  · have hlen : 3 ≤ options.strings.length := by rw [hstrings]; simp
    rw [passed_of_three_le options hlen (by omega), ← hstrings]
    unfold expected
    rw [if_neg (by omega), List.append_nil, map_cstring_eq_iff]
    exact (and_iff_right ⟨by omega, by omega⟩).symm

/-- The arguments are the options from the second on, followed by `--help` if there are fewer than
three, exactly when there are at least two and fewer than `2 ^ 31`, and none of them holds a NUL. -/
theorem options_passed_iff : options.Faithful
    ↔ (2 ≤ options.strings.length ∧ options.strings.length < 2 ^ 31)
      ∧ ∀ o ∈ options.strings.drop 1, 0 ∉ o := by
  rw [← passed_eq_expected_iff]
  refine ⟨fun h => h.passed_eq, fun h => ⟨h, fun arg harg => ?_⟩⟩
  rw [h] at harg
  rcases List.mem_append.1 harg with harg | harg
  · exact .inl (List.mem_of_mem_drop harg)
  · split_ifs at harg
    · exact .inr (List.mem_singleton.1 harg)
    · cases harg

end Given

def onlyMountpoint : Given := ⟨["/mnt".toList.flatMap String.utf8EncodeChar], by decide⟩

/-- With one option libfuse is passed `undefined`. -/
theorem undefined_passed :
    onlyMountpoint.passed = [JsArray.undefined] ∧ ¬ onlyMountpoint.Faithful := by
  have hpassed := onlyMountpoint.passed_singleton rfl
  refine ⟨hpassed, fun h => ?_⟩
  have hknown := h.known JsArray.undefined (by rw [hpassed]; exact List.mem_singleton_self _)
  rcases hknown with hknown | hknown
  · exact absurd hknown (by decide)
  · exact absurd hknown (by decide)

end NodeFuse.Options
