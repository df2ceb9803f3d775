import Mathlib.Tactic.SplitIfs

/-!
# Programs that may throw

A program on a state returns a value or throws, and leaves a state either way. `wp x Q E s` says that
`x` started in `s` ends in `Q` if it returns and in `E` if it throws, and each construct has a rule for
it. `Keeps I x` is an invariant of `x`, and of what it is made of.
-/

universe u

/-- A program on states `σ` that returns an `α` unless it throws. -/
def Throwing (σ α : Type u) : Type u := σ → Option α × σ

namespace Throwing

variable {σ α β : Type u}

instance : Monad (Throwing σ) where
  pure a := fun s => (some a, s)
  bind x f := fun s =>
    match x s with
    | (some a, s') => f a s'
    | (none, s') => (none, s')

def throw : Throwing σ α := fun s => (none, s)

/-- What was computed already, or a throw. -/
def ofOption (o : Option α) : Throwing σ α := fun s => (o, s)

def gets (f : σ → α) : Throwing σ α := fun s => (some (f s), s)

/-- The one program, and the other from where that throws. -/
def orElse (x y : Throwing σ α) : Throwing σ α := fun s =>
  match x s with
  | (some a, s') => (some a, s')
  | (none, s') => y s'

def modify (f : σ → σ) : Throwing σ PUnit := fun s => (some ⟨⟩, f s)

/-- The state a program leaves, whether it throws or not. -/
def final (x : Throwing σ α) (s : σ) : σ := (x s).2

def wp (x : Throwing σ α) (Q : α → σ → Prop) (E : σ → Prop) (s : σ) : Prop :=
  match x s with
  | (some a, s') => Q a s'
  | (none, s') => E s'

variable {Q : α → σ → Prop} {E : σ → Prop} {s : σ}

theorem wp_final {x : Throwing σ α} {P : σ → Prop} : wp x (fun _ => P) P s ↔ P (final x s) := by
  unfold wp final
  rcases x s with ⟨_ | a, s'⟩
  · exact Iff.rfl
  · exact Iff.rfl

@[simp] theorem wp_pure (a : α) : wp (pure a : Throwing σ α) Q E s ↔ Q a s := Iff.rfl

@[simp] theorem wp_gets (f : σ → α) : wp (gets f) Q E s ↔ Q (f s) s := Iff.rfl

@[simp] theorem wp_ofOption (o : Option α) :
    wp (ofOption o) Q E s ↔ (∀ a, o = some a → Q a s) ∧ (o = none → E s) := by
  unfold wp ofOption
  rcases o with _ | a
  · simp
  · simp

@[simp] theorem wp_bind (x : Throwing σ α) (f : α → Throwing σ β) {Q : β → σ → Prop} :
    wp (x >>= f) Q E s ↔ wp x (fun a => wp (f a) Q E) E s := by
  show (match (match x s with | (some a, s') => f a s' | (none, s') => (none, s')) with
    | (some b, s') => Q b s' | (none, s') => E s') ↔ _
  unfold wp
  rcases x s with ⟨_ | a, s'⟩
  · exact Iff.rfl
  · exact Iff.rfl

@[simp] theorem wp_orElse (x y : Throwing σ α) : wp (orElse x y) Q E s ↔ wp x Q (wp y Q E) s := by
  show (match (match x s with | (some a, s') => (some a, s') | (none, s') => y s') with
    | (some a, s') => Q a s' | (none, s') => E s') ↔ _
  unfold wp
  rcases x s with ⟨_ | a, s'⟩
  · exact Iff.rfl
  · exact Iff.rfl

@[simp] theorem wp_ite (c : Prop) [Decidable c] (x y : Throwing σ α) :
    wp (if c then x else y) Q E s ↔ (c → wp x Q E s) ∧ (¬ c → wp y Q E s) := by
  split_ifs with h
  · simp [h]
  · simp [h]

theorem wp_mono {x : Throwing σ α} {Q' : α → σ → Prop} (h : wp x Q E s)
    (hQ : ∀ a s', Q a s' → Q' a s') : wp x Q' E s := by
  unfold wp at h ⊢
  rcases hx : x s with ⟨_ | a, s'⟩
  · rw [hx] at h
    exact h
  · rw [hx] at h
    exact hQ a s' h

/-! ## What a program keeps -/

/-- The program keeps `I`, whether it throws or not. -/
def Keeps (I : σ → Prop) (x : Throwing σ α) : Prop := ∀ s, I s → wp x (fun _ => I) I s

section Keeps

variable {I : σ → Prop}

theorem Keeps.final {x : Throwing σ α} (h : Keeps I x) {s : σ} (hs : I s) : I (final x s) :=
  wp_final.1 (h s hs)

theorem keeps_pure (a : α) : Keeps I (pure a : Throwing σ α) := fun _ h => h

theorem keeps_throw : Keeps I (throw : Throwing σ α) := fun _ h => h

theorem keeps_gets (f : σ → α) : Keeps I (gets f) := fun _ h => h

theorem keeps_ofOption (o : Option α) : Keeps I (ofOption o) := fun _ h =>
  (wp_ofOption o).2 ⟨fun _ _ => h, fun _ => h⟩

theorem keeps_modify {f : σ → σ} (h : ∀ s, I s → I (f s)) : Keeps I (modify f) := h

theorem keeps_bind {x : Throwing σ α} {f : α → Throwing σ β} (hx : Keeps I x)
    (hf : ∀ a, Keeps I (f a)) : Keeps I (x >>= f) :=
  fun s hs => (wp_bind x f).2 (wp_mono (hx s hs) fun a s' => hf a s')

theorem keeps_ite {c : Prop} [Decidable c] {x y : Throwing σ α} (hx : Keeps I x) (hy : Keeps I y) :
    Keeps I (if c then x else y) := fun s hs =>
  (wp_ite c x y).2 ⟨fun _ => hx s hs, fun _ => hy s hs⟩

end Keeps

/-- Programs that agree step by step agree. -/
theorem bind_congr_at {x y : Throwing σ α} {f g : α → Throwing σ β} (hx : x s = y s)
    (hf : ∀ a t, y s = (some a, t) → f a t = g a t) : (x >>= f) s = (y >>= g) s := by
  show (match x s with | (some a, t) => f a t | (none, t) => (none, t))
    = match y s with | (some a, t) => g a t | (none, t) => (none, t)
  rw [hx]
  rcases h : y s with ⟨_ | a, t⟩
  · rfl
  · exact hf a t h

end Throwing
