import Mathlib.Data.Nat.Notation
import Mathlib.Data.Option.Basic
import Mathlib.Tactic.SplitIfs

/-!
# Runs of a machine

A machine is a partial step on states and events. `run` follows a list of events and `Along` says
that each of them met a condition in the state it happened in. What every such step keeps, the run
keeps (`inv_of_run`); a property that a step keeps exactly where the condition is met holds after
exactly the runs along it (`good_iff_along`); two machines with related states go along their
conditions together (`along_iff_along`); a machine whose every step another machine can follow
is followed by it on whole runs (`Simulates.run`); and a part that makes steps of its own makes a run
of its own (`run_view`).
-/

namespace Runs

variable {σ ε τ δ : Type*}

section Run

variable (step : σ → ε → Option σ)

/-- The state the events lead to, if each can happen where it comes. -/
def run : σ → List ε → Option σ
  | s, [] => some s
  | s, e :: es => (step s e).bind fun s' => run s' es

/-- Every event meets `C` in the state it happens in. -/
def Along (C : σ → ε → Prop) : σ → List ε → Prop
  | _, [] => True
  | s, e :: es => C s e ∧ ∀ s' ∈ step s e, Along C s' es

instance decidableAlong (C : σ → ε → Prop) [∀ s e, Decidable (C s e)] :
    ∀ s es, Decidable (Along step C s es)
  | _, [] => isTrue trivial
  | s, e :: es =>
    have : ∀ s', Decidable (Along step C s' es) := fun s' => decidableAlong C s' es
    inferInstanceAs (Decidable (C s e ∧ ∀ s' ∈ step s e, Along step C s' es))

@[simp] theorem run_nil (s : σ) : run step s [] = some s := rfl

theorem run_cons {s s' : σ} {e : ε} {es : List ε} :
    run step s (e :: es) = some s' ↔ ∃ m, step s e = some m ∧ run step m es = some s' := by
  simp only [run, Option.bind_eq_some_iff]

theorem run_append (es fs : List ε) (s : σ) :
    run step s (es ++ fs) = (run step s es).bind fun m => run step m fs := by
  induction es generalizing s with
  | nil => rfl
  | cons e es ih =>
    simp only [List.cons_append, run]
    rcases step s e with _ | m
    · rfl
    · exact ih m

/-- A machine whose every event can happen folds them. -/
theorem run_total (f : σ → ε → σ) : ∀ (es : List ε) (s : σ),
    run (fun s e => some (f s e)) s es = some (es.foldl f s)
  | [], _ => rfl
  | e :: es, s => run_total f es (f s e)

theorem along_cons {C : σ → ε → Prop} {s m : σ} {e : ε} {es : List ε} (h : step s e = some m) :
    Along step C s (e :: es) ↔ C s e ∧ Along step C m es := by
  simp [Along, h]

/-- `G` holds in every state the events pass through. -/
def Throughout (G : σ → Prop) : σ → List ε → Prop
  | s, [] => G s
  | s, e :: es => G s ∧ ∀ s' ∈ step s e, Throughout G s' es

/-- How many of the events lead to another state. -/
def moves [DecidableEq σ] : σ → List ε → ℕ
  | _, [] => 0
  | s, e :: es =>
    match step s e with
    | some s' => (if s' = s then 0 else 1) + moves s' es
    | none => 0

/-- How many of the events meet `C` in the state they happen in. -/
def count (C : σ → ε → Bool) : σ → List ε → ℕ
  | _, [] => 0
  | s, e :: es =>
    match step s e with
    | some s' => (if C s e then 1 else 0) + count C s' es
    | none => 0

theorem along_of_forall {C : σ → ε → Prop} (h : ∀ s e, C s e) :
    ∀ (es : List ε) (s : σ), Along step C s es
  | [], _ => trivial
  | e :: es, s => ⟨h s e, fun s' _ => along_of_forall h es s'⟩

theorem along_and_iff {C D : σ → ε → Prop} : ∀ {es : List ε} {s : σ},
    Along step (fun s e => C s e ∧ D s e) s es ↔ Along step C s es ∧ Along step D s es
  | [], _ => by simp [Along]
  | e :: es, s => by
    have ih : ∀ s', Along step (fun s e => C s e ∧ D s e) s' es
        ↔ Along step C s' es ∧ Along step D s' es := fun _ => along_and_iff
    simp only [Along, ih, forall_and, and_assoc, and_left_comm]

theorem along_and {C : σ → ε → Prop} {E : ε → Prop} : ∀ {es : List ε} {s : σ},
    Along step C s es → (∀ e ∈ es, E e) → Along step (fun s e => C s e ∧ E e) s es
  | [], _, _, _ => trivial
  | e :: _, _, h, hE => ⟨⟨h.1, hE e List.mem_cons_self⟩,
    fun s' hs' => along_and (h.2 s' hs') fun f hf => hE f (List.mem_cons_of_mem _ hf)⟩

theorem run_concat {es : List ε} {e : ε} {s s' : σ} :
    run step s (es ++ [e]) = some s' ↔ ∃ m, run step s es = some m ∧ step m e = some s' := by
  rw [run_append, Option.bind_eq_some_iff]
  refine exists_congr fun m => and_congr_right fun _ => ?_
  rw [run_cons]
  refine ⟨fun h => ?_, fun h => ?_⟩
  · obtain ⟨m', h, hr⟩ := h
    rw [run_nil, Option.some.injEq] at hr
    exact hr ▸ h
  · exact ⟨s', h, rfl⟩

/-- A run goes along `C` when each event meets `C` in the state the events before it lead to. -/
theorem along_of_prefixes {C : σ → ε → Prop} : ∀ (es : List ε) (s : σ),
    (∀ fs e m m', fs ++ [e] <+: es → run step s fs = some m → step m e = some m' → C m e) →
      (run step s es).isSome → Along step C s es
  | [], _, _, _ => trivial
  | e :: es, s, h, hr => by
    obtain ⟨s', hr⟩ := Option.isSome_iff_exists.1 hr
    obtain ⟨m, hm, hr⟩ := (run_cons step).1 hr
    rw [along_cons step hm]
    refine ⟨h [] e s m (List.prefix_append [e] es) rfl hm, along_of_prefixes es m ?_ (by rw [hr]; rfl)⟩
    intro fs f n n' hfs hn hn'
    exact h (e :: fs) f n n' (by simpa using hfs) ((run_cons step).2 ⟨m, hm, hn⟩) hn'

theorem along_append {C : σ → ε → Prop} : ∀ {es fs : List ε} {s : σ},
    Along step C s (es ++ fs)
      ↔ Along step C s es ∧ ∀ m, run step s es = some m → Along step C m fs
  | [], _, s => by simp [Along]
  | e :: es, fs, s => by
    simp only [List.cons_append, Along]
    rcases hs : step s e with _ | m
    · simp [run, hs]
    · have ih : Along step C m (es ++ fs)
          ↔ Along step C m es ∧ ∀ m', run step m es = some m' → Along step C m' fs :=
        along_append
      simp only [run, hs, Option.mem_def, Option.some.injEq, forall_eq', Option.bind_some, ih,
        and_assoc]

variable {step}

/-- Two conditions that agree on the states of an invariant have the same runs along them. -/
theorem along_congr {I : σ → Prop} {C D : σ → ε → Prop}
    (hI : ∀ s e s', I s → step s e = some s' → I s') (h : ∀ s e, I s → (C s e ↔ D s e)) :
    ∀ (es : List ε) {s : σ}, I s → (Along step C s es ↔ Along step D s es)
  | [], _, _ => Iff.rfl
  | e :: es, s, hs =>
    and_congr (h s e hs) (forall₂_congr fun s' hs' => along_congr hI h es (hI s e s' hs hs'))

theorem throughout_of_inv {I G : σ → Prop} (hI : ∀ s e s', I s → step s e = some s' → I s')
    (hG : ∀ s, I s → G s) : ∀ (es : List ε) {s : σ}, I s → Throughout step G s es
  | [], s, h => hG s h
  | e :: es, s, h => ⟨hG s h, fun s' hs' => throughout_of_inv hI hG es (hI s e s' h hs')⟩

/-- If every step goes on, and from a state of `G` to another exactly where it meets `C`, the runs that
stay in `G` are those along `C`. -/
theorem throughout_iff_along {I G : σ → Prop} {C : σ → ε → Prop}
    (h : ∀ s e, I s → ∃ s', step s e = some s' ∧ I s' ∧ (G s → (G s' ↔ C s e))) :
    ∀ (es : List ε) {s : σ}, I s → G s → (Throughout step G s es ↔ Along step C s es)
  | [], s, _, hG => iff_of_true hG trivial
  | e :: es, s, hI, hG => by
    obtain ⟨s', hs', hI', hiff⟩ := h s e hI
    have hstep : ∀ P : σ → Prop, (∀ m ∈ step s e, P m) ↔ P s' := by simp [hs']
    rw [Throughout, hstep, along_cons step hs', and_iff_right hG]
    by_cases hC : C s e
    · rw [and_iff_right hC]
      exact throughout_iff_along h es hI' ((hiff hG).2 hC)
    · refine iff_of_false (fun hthrough => hC ((hiff hG).1 ?_)) fun h => hC h.1
      cases es with
      | nil => exact hthrough
      | cons f fs => exact hthrough.1

/-- What every step along `C` keeps, a run along `C` keeps. -/
theorem inv_of_run {I : σ → Prop} {C : σ → ε → Prop}
    (hI : ∀ s e s', I s → C s e → step s e = some s' → I s') :
    ∀ {es : List ε} {s s' : σ}, I s → Along step C s es → run step s es = some s' → I s'
  | [], s, s', h, _, hr => by
    simp only [run_nil, Option.some.injEq] at hr
    exact hr ▸ h
  | e :: es, s, s', h, hC, hr => by
    obtain ⟨m, hm, hr⟩ := (run_cons step).1 hr
    obtain ⟨hC1, hC2⟩ := (along_cons step hm).1 hC
    exact inv_of_run hI (hI s e m h hC1 hm) hC2 hr

/-- An invariant of the steps along `C` takes every run along `C` along what it implies for them. -/
theorem along_of_along {I : σ → Prop} {C D : σ → ε → Prop}
    (hI : ∀ s e s', I s → C s e → step s e = some s' → I s')
    (hD : ∀ s e s', I s → C s e → step s e = some s' → D s e) :
    ∀ {es : List ε} {s s' : σ}, I s → Along step C s es → run step s es = some s' →
      Along step D s es
  | [], _, _, _, _, _ => trivial
  | e :: es, s, s', h, hC, hr => by
    obtain ⟨m, hm, hr⟩ := (run_cons step).1 hr
    obtain ⟨hC1, hC2⟩ := (along_cons step hm).1 hC
    exact (along_cons step hm).2 ⟨hD s e m h hC1 hm, along_of_along hI hD (hI s e m h hC1 hm) hC2 hr⟩

/-- What every step along `C` keeps holds all along. -/
theorem throughout_of_along {I : σ → Prop} {C : σ → ε → Prop}
    (hI : ∀ s e s', I s → C s e → step s e = some s' → I s') :
    ∀ {es : List ε} {s : σ}, I s → Along step C s es → Throughout step I s es
  | [], _, h, _ => h
  | e :: _, s, h, hC => ⟨h, fun s' hs' => throughout_of_along hI (hI s e s' h hC.1 hs') (hC.2 s' hs')⟩

theorem along_imp {I : σ → Prop} {C D : σ → ε → Prop}
    (hI : ∀ s e s', I s → C s e → step s e = some s' → I s')
    (hD : ∀ s e, I s → C s e → D s e) :
    ∀ {es : List ε} {s : σ}, I s → Along step C s es → Along step D s es
  | [], _, _, _ => trivial
  | e :: _, s, h, hC => ⟨hD s e h hC.1,
    fun s' hs' => along_imp hI hD (hI s e s' h hC.1 hs') (hC.2 s' hs')⟩

/-- Machines whose steps along `C` are the same have the same runs along `C`. -/
theorem run_congr {step' : σ → ε → Option σ} {I : σ → Prop} {C : σ → ε → Prop}
    (hI : ∀ s e s', I s → C s e → step s e = some s' → I s')
    (hstep : ∀ s e, I s → C s e → step s e = step' s e) :
    ∀ {es : List ε} {s : σ}, I s → Along step C s es → run step s es = run step' s es
  | [], _, _, _ => rfl
  | e :: es, s, h, hC => by
    rw [run, run, ← hstep s e h hC.1]
    rcases hs : step s e with _ | s'
    · rfl
    · exact run_congr hI hstep (hI s e s' h hC.1 hs) (hC.2 s' hs)

theorem inv_of_any_run {I : σ → Prop} (hI : ∀ s e s', I s → step s e = some s' → I s')
    {es : List ε} {s s' : σ} (h : I s) (hr : run step s es = some s') : I s' :=
  inv_of_run (C := fun _ _ => True) (fun s e s' hs _ => hI s e s' hs) h
    (along_of_forall step (fun _ _ => trivial) es s) hr

/-- An invariant under which every event meets `C` takes every run along `C`. -/
theorem along_of_inv {I : σ → Prop} {C : σ → ε → Prop}
    (hI : ∀ s e s', I s → step s e = some s' → I s') (hC : ∀ s e s', I s → step s e = some s' → C s e)
    {es : List ε} {s s' : σ} (h : I s) (hr : run step s es = some s') : Along step C s es := by
  refine along_of_prefixes step es s (fun fs e m m' _ hm hm' => ?_) (by rw [hr]; rfl)
  exact hC m e m' (inv_of_any_run hI h hm) hm'

/-- Where every event of a kind leads to a state of lower rank or nowhere else, a run of these leads to
another state no more often than the rank. -/
theorem moves_le_rank [DecidableEq σ] {I : σ → Prop} {E : ε → Prop} {rank : σ → ℕ}
    (hI : ∀ s e s', I s → step s e = some s' → I s')
    (hrank : ∀ s e s', I s → E e → step s e = some s' → s' = s ∨ rank s' < rank s) :
    ∀ (es : List ε) {s : σ}, I s → (∀ e ∈ es, E e) → moves step s es ≤ rank s
  | [], _, _, _ => Nat.zero_le _
  | e :: es, s, hs, hE => by
    rw [moves]
    rcases hstep : step s e with _ | s'
    · exact Nat.zero_le _
    · have ih := moves_le_rank hI hrank es (hI s e s' hs hstep) fun f hf =>
        hE f (List.mem_cons_of_mem _ hf)
      rcases hrank s e s' hs (hE e List.mem_cons_self) hstep with rfl | hlt
      · simpa using ih
      · simp only []
        split_ifs
        · omega
        · omega

/-- What goes up by one with every event that meets `C` has gone up by their number. -/
theorem measure_eq_add_count {C : σ → ε → Bool} (measure : σ → ℕ)
    (h : ∀ s e s', step s e = some s' → measure s' = measure s + if C s e then 1 else 0) :
    ∀ {es : List ε} {s s' : σ}, run step s es = some s' →
      measure s' = measure s + count step C s es
  | [], s, s', hr => by
    simp only [run_nil, Option.some.injEq] at hr
    rw [hr, count, Nat.add_zero]
  | e :: es, s, s', hr => by
    obtain ⟨m, hm, hr⟩ := (run_cons step).1 hr
    rw [measure_eq_add_count measure h hr, h s e m hm, count, hm, Nat.add_assoc]

/-- Where `G` after a step along `C` means `G` before it and `D` for the step, a run along `C` that ends
in `G` goes along `D`. -/
theorem along_of_last {I G : σ → Prop} {C D : σ → ε → Prop}
    (hI : ∀ s e s', I s → step s e = some s' → I s')
    (hG : ∀ s e s', I s → C s e → step s e = some s' → G s' → G s ∧ D s e) :
    ∀ {es : List ε} {s s' : σ}, I s → Along step C s es → run step s es = some s' → G s' →
      G s ∧ Along step D s es
  | [], s, s', _, _, hr, hs' => by
    simp only [run_nil, Option.some.injEq] at hr
    exact ⟨hr ▸ hs', trivial⟩
  | e :: es, s, s', h, hC, hr, hs' => by
    obtain ⟨m, hm, hr⟩ := (run_cons step).1 hr
    obtain ⟨hC1, hC2⟩ := (along_cons step hm).1 hC
    obtain ⟨hGm, hD⟩ := along_of_last hI hG (hI s e m h hm) hC2 hr hs'
    obtain ⟨hGs, hDs⟩ := hG s e m h hC1 hm hGm
    exact ⟨hGs, (along_cons step hm).2 ⟨hDs, hD⟩⟩

/-- If, on the states of an invariant, a step keeps `G` exactly where it meets `C`, and nothing
brings `G` back, a run keeps `G` exactly when it goes along `C`. -/
theorem good_iff_along {I G : σ → Prop} {C : σ → ε → Prop}
    (hI : ∀ s e s', I s → step s e = some s' → I s')
    (hG : ∀ s e s', I s → step s e = some s' → (G s' ↔ G s ∧ C s e)) :
    ∀ {es : List ε} {s s' : σ}, I s → run step s es = some s' →
      (G s' ↔ G s ∧ Along step C s es)
  | [], s, s', _, hr => by
    simp only [run_nil, Option.some.injEq] at hr
    simp [hr, Along]
  | e :: es, s, s', h, hr => by
    obtain ⟨m, hm, hr⟩ := (run_cons step).1 hr
    rw [good_iff_along hI hG (hI s e m h hm) hr, hG s e m h hm, along_cons step hm, and_assoc]

end Run

section Simulation

/-- Wherever `stepc` meets `C`, `stepa` can follow, and `R` relates the two again. -/
def Simulates (stepc : σ → ε → Option σ) (stepa : τ → δ → Option τ) (R : σ → τ → Prop)
    (C : σ → ε → Prop) : Prop :=
  ∀ s e s' t, R s t → C s e → stepc s e = some s' →
    ∃ ds t', run stepa t ds = some t' ∧ R s' t'

variable {stepc : σ → ε → Option σ} {stepa : τ → δ → Option τ} {R : σ → τ → Prop}
  {C : σ → ε → Prop}

theorem Simulates.run (h : Simulates stepc stepa R C) :
    ∀ {es : List ε} {s s' : σ} {t : τ}, R s t → Along stepc C s es →
      run stepc s es = some s' → ∃ ds t', Runs.run stepa t ds = some t' ∧ R s' t'
  | [], s, s', t, hR, _, hr => by
    simp only [run_nil, Option.some.injEq] at hr
    exact ⟨[], t, rfl, hr ▸ hR⟩
  | e :: es, s, s', t, hR, hC, hr => by
    obtain ⟨m, hm, hr⟩ := (run_cons stepc).1 hr
    obtain ⟨hC1, hC2⟩ := (along_cons stepc hm).1 hC
    obtain ⟨ds, t₁, hd, hR₁⟩ := h s e m t hR hC1 hm
    obtain ⟨ds', t', hd', hR'⟩ := h.run hR₁ hC2 hr
    exact ⟨ds ++ ds', t', by rw [run_append, hd]; exact hd', hR'⟩

/-- Where a part of the state makes a step of its own for the events that concern it, and stays as it is
for the others, it makes a run of its own. -/
theorem run_view (view : σ → τ) (f : ε → Option δ) {I : σ → Prop}
    (hI : ∀ s e s', I s → C s e → stepc s e = some s' → I s')
    (hview : ∀ s e s', I s → C s e → stepc s e = some s' →
      run stepa (view s) (f e).toList = some (view s')) :
    ∀ {es : List ε} {s s' : σ}, I s → Along stepc C s es → Runs.run stepc s es = some s' →
      Runs.run stepa (view s) (es.filterMap f) = some (view s')
  | [], s, s', _, _, hr => by
    simp only [run_nil, Option.some.injEq] at hr
    exact hr ▸ rfl
  | e :: es, s, s', h, hC, hr => by
    obtain ⟨m, hm, hr⟩ := (run_cons stepc).1 hr
    obtain ⟨hC1, hC2⟩ := (along_cons stepc hm).1 hC
    have hfirst := hview s e m h hC1 hm
    have hrest := run_view view f hI hview (hI s e m h hC1 hm) hC2 hr
    rw [show (e :: es).filterMap f = (f e).toList ++ es.filterMap f by
      rcases hf : f e with _ | d <;> simp [hf], run_append, hfirst]
    exact hrest

/-- If related states meet the two conditions for the same events, and stay related by the steps
that meet them, then the two machines go along their conditions on the same runs. -/
theorem along_iff_along {f : ε → δ} {D : τ → δ → Prop}
    (hC : ∀ s t e, R s t → (C s e ↔ D t (f e)))
    (hR : ∀ s t e, R s t → C s e → Option.Rel R (stepc s e) (stepa t (f e))) :
    ∀ {es : List ε} {s : σ} {t : τ}, R s t →
      (Along stepc C s es ↔ Along stepa D t (es.map f))
  | [], _, _, _ => Iff.rfl
  | e :: es, s, t, h => by
    rw [List.map_cons, Along, Along, ← hC s t e h]
    refine and_congr_right fun hcond => ?_
    rcases hs : stepc s e with _ | s' <;> rcases ht : stepa t (f e) with _ | t'
    · simp
    · have hrel := hR s t e h hcond
      rw [hs, ht] at hrel
      cases hrel
    · have hrel := hR s t e h hcond
      rw [hs, ht] at hrel
      cases hrel
    · have hrel := hR s t e h hcond
      rw [hs, ht] at hrel
      cases hrel with
      | some hrel => simpa using along_iff_along hC hR hrel

end Simulation

end Runs
