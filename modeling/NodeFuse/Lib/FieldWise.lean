import Mathlib.Data.Set.Function

/-!
# Decoders that fill each field from one place

A decoder overwrites a structure from an input. Where each field is stored from one place of the
input (`FieldWise`), the field depends on that place alone: neither on what the structure held nor on
the rest of the input, and as injectively as the store is.
-/

variable {ω σ φ ν β : Type*}

/-- What the decoder leaves in a field is what `store` makes of the field's `source`. -/
structure FieldWise (decode : ω → σ → Option σ) (read : σ → φ → β) (source : ω → φ → ν)
    (store : φ → ν → β) : Prop where
  read_eq : ∀ {o s s'} (f), decode o s = some s' → read s' f = store f (source o f)

namespace FieldWise

variable {decode : ω → σ → Option σ} {read : σ → φ → β} {source : ω → φ → ν} {store : φ → ν → β}
  {o₁ o₂ : ω} {s₁ s₂ t₁ t₂ : σ} {f : φ}

theorem read_eq_iff (h : FieldWise decode read source store) {S : Set ν}
    (hinj : Set.InjOn (store f) S) (h₁ : decode o₁ s₁ = some t₁) (h₂ : decode o₂ s₂ = some t₂)
    (hs₁ : source o₁ f ∈ S) (hs₂ : source o₂ f ∈ S) :
    read t₁ f = read t₂ f ↔ source o₁ f = source o₂ f := by
  rw [h.read_eq f h₁, h.read_eq f h₂]
  exact hinj.eq_iff hs₁ hs₂

end FieldWise
