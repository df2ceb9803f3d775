import Mathlib.Logic.Function.Basic
import NodeFuse.Lib.Registers

/-!
# Tables keyed by a hash

A table that an item is stored in, and erased from, under its hash. Its keys are registers: after any
operations a key holds what the last one at it left (`applyAll_apply`), so an item is found under its
hash exactly while the last operation there has stored it (`applyAll_eq_some_iff`). Nothing but an item
of the hash is ever found under a key, except what was there from the start (`keyed_applyAll`).
-/

namespace HashTable

variable {π κ : Type*} [DecidableEq κ] (hash : π → κ)

inductive Op (π : Type*)
  | store (p : π)
  | erase (p : π)

namespace Op

def item : Op π → π
  | .store p | .erase p => p

/-- What the operation leaves under the hash of its item. -/
def value : Op π → Option π
  | .store p => some p
  | .erase _ => none

end Op

def apply (t : κ → Option π) (op : Op π) : κ → Option π :=
  Function.update t (hash op.item) op.value

def applyAll (t : κ → Option π) (ops : List (Op π)) : κ → Option π := ops.foldl (apply hash) t

/-- What the last of the operations at a key leaves there, if there is one. -/
def lastAt (k : κ) (ops : List (Op π)) : Option (Option π) :=
  Registers.last (fun op => hash op.item) Op.value k ops

theorem isRegister (k : κ) : Registers.IsRegister (fun op : Op π => hash op.item) Op.value
    (fun t k => t k) (apply hash) k := by
  refine ⟨fun t op hk => ?_, fun t op hk => ?_⟩
  · unfold apply
    rw [hk, Function.update_self]
  · exact Function.update_of_ne (Ne.symm hk) _ _

variable {hash}

theorem applyAll_apply (t : κ → Option π) (ops : List (Op π)) (k : κ) :
    applyAll hash t ops k = (lastAt hash k ops).getD (t k) :=
  (isRegister hash k).read_foldl t ops

theorem lastAt_eq_none_iff {k : κ} {ops : List (Op π)} :
    lastAt hash k ops = none ↔ ∀ op ∈ ops, hash op.item ≠ k := by
  unfold lastAt Registers.last
  rw [Option.map_eq_none_iff, List.getLast?_eq_none_iff, List.filter_eq_nil_iff]
  simp only [decide_eq_true_eq, ne_eq]

theorem hash_of_lastAt {k : κ} {ops : List (Op π)} {p : π}
    (h : lastAt hash k ops = some (some p)) : hash p = k := by
  unfold lastAt at h
  rw [Registers.last_eq_map, Option.map_eq_some_iff] at h
  obtain ⟨op, hop, hvalue⟩ := h
  have hname := Registers.name_of_last _ hop
  cases op with
  | store q =>
    obtain rfl := Option.some.inj hvalue
    exact hname
  | erase q => cases hvalue

/-- A key holds `p` after some operations exactly when the last one at it has stored `p`, or there was
none and it held `p` before. -/
theorem applyAll_eq_some_iff {t : κ → Option π} {ops : List (Op π)} {k : κ} {p : π} :
    applyAll hash t ops k = some p
      ↔ (∀ v, lastAt hash k ops = some v → v = some p) ∧ (lastAt hash k ops = none → t k = some p) := by
  rw [applyAll_apply]
  rcases lastAt hash k ops with _ | v
  · simp
  · simp

/-- Each key holds an item of its hash, or one it is excused for. -/
def Keyed (hash : π → κ) (excused : κ → π → Prop) (t : κ → Option π) : Prop :=
  ∀ k p, t k = some p → hash p = k ∨ excused k p

theorem keyed_apply {excused : κ → π → Prop} {t : κ → Option π} (h : Keyed hash excused t)
    (op : Op π) : Keyed hash excused (apply hash t op) := by
  intro k p hp
  by_cases hk : k = hash op.item
  · rw [hk, apply, Function.update_self] at hp
    cases op with
    | store q =>
      obtain rfl := Option.some.inj hp
      exact .inl hk.symm
    | erase q => cases hp
  · rw [apply, Function.update_of_ne hk] at hp
    exact h k p hp

theorem keyed_applyAll {excused : κ → π → Prop} : ∀ (ops : List (Op π)) {t : κ → Option π},
    Keyed hash excused t → Keyed hash excused (applyAll hash t ops)
  | [], _, h => h
  | op :: ops, _, h => keyed_applyAll ops (keyed_apply h op)

theorem forall_applyAll {P : π → Prop} : ∀ (ops : List (Op π)) {t : κ → Option π},
    (∀ k p, t k = some p → P p) → (∀ p, Op.store p ∈ ops → P p) →
      ∀ k p, applyAll hash t ops k = some p → P p
  | [], _, ht, _ => ht
  | op :: ops, t, ht, hops => by
    refine forall_applyAll ops (fun k p hp => ?_) fun p hp => hops p (List.mem_cons_of_mem _ hp)
    by_cases hk : k = hash op.item
    · rw [hk, apply, Function.update_self] at hp
      cases op with
      | store q =>
        rw [← Option.some.inj hp]
        exact hops q List.mem_cons_self
      | erase q => cases hp
    · rw [apply, Function.update_of_ne hk] at hp
      exact ht k p hp

end HashTable
