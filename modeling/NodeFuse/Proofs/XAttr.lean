import NodeFuse.Proofs.Arguments
import NodeFuse.XAttr

/-!
# How much of a value is delivered

The string ends at the first zero byte from the beginning of the value, wherever that is
(`string_eq`), so it is that of the value only if the byte after it happens to be the first zero.
-/

namespace NodeFuse

theorem cstring_eq_nil_iff (t : List UInt8) : cstring t = [] ↔ ∀ b ∈ t.head?, b = 0 := by
  rcases t with _ | ⟨b, t⟩
  · exact iff_of_true rfl fun b hb => by cases hb
  · simp only [List.head?_cons, Option.mem_some_iff, forall_eq']
    unfold cstring
    rw [List.takeWhile_cons]
    by_cases hb : b = 0 <;> simp [hb]

theorem cstring_append_eq_iff (v t : List UInt8) :
    cstring (v ++ t) = v ↔ 0 ∉ v ∧ ∀ b ∈ t.head?, b = 0 := by
  rw [← cstring_eq_nil_iff]
  refine ⟨fun h => ?_, fun h => ?_⟩
  · have hzero : 0 ∉ v := by
      rw [← h]
      exact zero_notMem_cstring _
    rw [cstring_append hzero, List.append_right_eq_self] at h
    exact ⟨hzero, h⟩
  · rw [cstring_append h.1, h.2, List.append_nil]

namespace SetXAttr

variable {σ : Type*} (decode : List UInt8 → σ) (S : Session) (x : SetXAttr)

theorem given_eq : x.given S = some (x.mem.stringNew x.value) := by
  have h := invocations_serve S x.mem 0
    (.setXAttr x.req x.ino x.name x.value x.size x.flags)
  unfold given
  rw [show FileSystem.setXAttr x.req x.ino x.name x.value x.size x.flags
    = FileSystem.serve 0 (.setXAttr x.req x.ino x.name x.value x.size x.flags) from rfl, h]
  rfl

theorem string_eq : x.string decode S = some (decode (cstring (x.mem.chars x.value))) := by
  unfold string
  rw [given_eq]
  rfl

theorem cstring_eq_sent_iff :
    cstring (x.mem.chars x.value) = x.sent ↔ 0 ∉ x.sent ∧ ∀ b ∈ x.following, b = 0 := by
  have hsplit : x.mem.chars x.value
      = x.sent ++ (x.mem.chars x.value).drop x.size.toNat := (List.take_append_drop _ _).symm
  have hhead : ((x.mem.chars x.value).drop x.size.toNat).head? = x.following := List.head?_drop
  rw [hsplit, cstring_append_eq_iff, hhead]

theorem exact_iff : x.Exact decode S
    ↔ cstring (x.mem.chars x.value) = x.sent ∧ ∀ w, decode w = decode x.sent → w = x.sent := by
  unfold Exact
  rw [string_eq]
  simp only [Option.some.injEq]
  refine ⟨fun h => ?_, fun h w => ?_⟩
  · have hsent := (h _).1 rfl
    refine ⟨hsent, fun w hw => (h w).1 ?_⟩
    rw [hsent, hw]
  · rw [h.1]
    refine ⟨fun hw => h.2 w hw.symm, fun hw => ?_⟩
    rw [hw]

/-- Between requests whose values are delivered exactly, the method sees the same string exactly for
the same value. -/
theorem Exact.string_eq_iff {x y : SetXAttr} (hx : x.Exact decode S) (hy : y.Exact decode S) :
    x.string decode S = y.string decode S ↔ x.sent = y.sent := by
  rw [(hy y.sent).2 rfl, hx]
  exact eq_comm

/-- The method sees exactly the value that was sent exactly when the value has no zero byte, the byte
after it is zero, and no other bytes decode to the same string. -/
theorem value_delivered_iff :
    (x.Exact decode S ↔ (0 ∉ x.sent ∧ ∀ b ∈ x.following, b = 0)
        ∧ ∀ w, decode w = decode x.sent → w = x.sent)
      ∧ ∀ y : SetXAttr, x.Exact decode S → y.Exact decode S →
        (x.string decode S = y.string decode S ↔ x.sent = y.sent) := by
  refine ⟨?_, fun y hx hy => hx.string_eq_iff decode S hy⟩
  rw [exact_iff, cstring_eq_sent_iff]

/-- A value of so many bytes at the beginning of these. -/
def valueIn (bytes : List UInt8) (size : UInt64) : SetXAttr where
  mem := { (default : Mem) with chars := fun p => if p = 4 then bytes else [] }
  req := 1
  ino := 2
  name := 3
  value := 4
  size := size
  flags := 0

/-- One value is delivered as two, as what follows it differs, and two values as one. -/
theorem value_overrun_and_truncated :
    ((valueIn [97, 98, 99] 2).sent = (valueIn [97, 98, 0] 2).sent
        ∧ (valueIn [97, 98, 99] 2).string id default ≠ (valueIn [97, 98, 0] 2).string id default)
      ∧ (valueIn [97, 0, 98] 3).sent ≠ (valueIn [97, 0, 99] 3).sent
        ∧ (valueIn [97, 0, 98] 3).string id default = (valueIn [97, 0, 99] 3).string id default := by
  simp only [string_eq]
  exact ⟨⟨by decide, by decide⟩, by decide, by decide⟩

end SetXAttr

end NodeFuse
