import NodeFuse.Proofs.Workers

/-!
# Workers that leave each other alone

A worker depends on the others only in what it reads of the shared fields. If that is always its own, it
does what it would do by itself (`independent`), and what a worker by itself creates it releases in the
end, unless it could not mount (`released_all_iff`).
-/

namespace NodeFuse.Workers

open Runs

section View

variable {s : State} {k j : ℕ} {pc : Pc}

theorem view_eq (h : s.pcs[k]? = some pc) :
    s.view k = ⟨pc, (s.view k).assigned, (s.view k).acted⟩ := by
  have hpc : (s.view k).pc = pc := by
    show s.pcs.getD k .setArgs = pc
    rw [List.getD_eq_getElem?_getD, h]
    rfl
  rw [← hpc]

theorem view_goto (h : s.pcs[k]? = some pc) (pc' : Pc) :
    (s.goto k pc').view k = (s.view k).goto pc' := by
  have hpc : (s.pcs.set k pc').getD k .setArgs = pc' := by
    rw [List.getD_eq_getElem?_getD, List.getElem?_set_self (List.getElem?_eq_some_iff.1 h).1]
    rfl
  unfold State.goto State.view Lone.goto
  rw [hpc]

theorem view_goto_ne (hj : j ≠ k) (pc' : Pc) : (s.goto k pc').view j = s.view j := by
  have hpc : (s.pcs.set k pc').getD j .setArgs = s.pcs.getD j .setArgs := by
    rw [List.getD_eq_getElem?_getD, List.getD_eq_getElem?_getD, List.getElem?_set_ne (Ne.symm hj)]
  unfold State.goto State.view
  rw [hpc]

theorem view_assign (f : Field) (created : Bool) :
    (s.assign f k created).view k = (s.view k).assign f created := by
  unfold State.assign State.view Lone.assign
  rw [List.filter_cons_of_pos (by simp)]
  rfl

theorem view_assign_ne (hj : j ≠ k) (f : Field) (created : Bool) :
    (s.assign f k created).view j = s.view j := by
  unfold State.assign State.view
  rw [List.filter_cons_of_neg (by simpa using Ne.symm hj)]

theorem view_use (a : Action) :
    (s.use k a).view k = { s.view k with acted := (s.view k).acted ++ [a] } := by
  unfold State.use State.view
  simp

theorem view_use_ne (hj : j ≠ k) (a : Action) : (s.use k a).view j = s.view j := by
  unfold State.use State.view
  simp [Ne.symm hj]

theorem view_mount : { s with pcs := s.pcs ++ [Pc.setArgs] }.view k = s.view k := by
  have hpc : (s.pcs ++ [Pc.setArgs]).getD k .setArgs = s.pcs.getD k .setArgs := by
    rw [List.getD_eq_getElem?_getD, List.getD_eq_getElem?_getD, List.getElem?_append]
    split_ifs with hk
    · rfl
    · rw [List.getElem?_eq_none (Nat.not_lt.1 hk)]
      rcases k - s.pcs.length with _ | n
      · rfl
      · rfl
  unfold State.view
  rw [hpc]

end View

/-- Where the last assignment to a field was a worker's, it is the last of that worker's. -/
theorem lookup_view {k : ℕ} {f : Field} {x : Assignment} : ∀ {l : List Assignment},
    l.find? (·.field = f) = some x → x.worker = k →
      ((l.filter (·.worker = k)).map fun y => (y.field, y.created)).lookup f = some x.created
  | [], h, _ => by cases h
  | y :: l, h, hx => by
    by_cases hf : y.field = f
    · rw [List.find?_cons_of_pos (by simpa using hf), Option.some.injEq] at h
      rw [h, List.filter_cons_of_pos (by simpa using hx), List.map_cons, List.lookup_cons,
        ← hf, h, beq_self_eq_true]
    · rw [List.find?_cons_of_neg (by simpa using hf)] at h
      have ih := lookup_view h hx
      by_cases hy : y.worker = k
      · rw [List.filter_cons_of_pos (by simpa using hy), List.map_cons, List.lookup_cons,
          beq_eq_false_iff_ne.2 (Ne.symm hf)]
        exact ih
      · rw [List.filter_cons_of_neg (by simpa using hy)]
        exact ih

/-- A worker that reads its own, if anybody's, finds something where it has created it. -/
theorem content_eq_none_iff {s : State} (hT : Tracked s) {k : ℕ} {f : Field}
    (hown : ∀ x ∈ s.latest f, x.worker = k) (hsome : (s.view k).assigned.lookup f ≠ none) :
    s.content f = none ↔ (s.view k).has f = false := by
  have hlatest : s.latest f ≠ none := by
    intro hnone
    refine hsome (List.lookup_eq_none_iff.2 fun y hy => ?_)
    obtain ⟨x, hx, rfl⟩ := List.mem_map.1 hy
    have hne := List.find?_eq_none.1 hnone x (List.mem_of_mem_filter hx)
    exact bne_iff_ne.2 fun hf => hne (decide_eq_true hf.symm)
  obtain ⟨x, hx⟩ := Option.ne_none_iff_exists'.1 hlatest
  have hlookup : (s.view k).assigned.lookup f = some x.created := lookup_view hx (hown x hx)
  rw [hT f, hx, Option.bind_some]
  unfold Assignment.creator Lone.has
  rw [hlookup]
  rcases x.created
  · exact iff_of_true rfl rfl
  · exact iff_of_false (Option.some_ne_none _) (by decide)

/-- What a worker by itself has assigned and done where it has got to. -/
def courses : Pc → List (List (Field × Bool) × List Action)
  | .setArgs => [([], [])]
  | .act .parseCmdline => [(args, [])]
  | .setMountpoint => [(args, [.parseCmdline])]
  | .act .mountPoint => [(mounted, [.parseCmdline])]
  | .act .mountArgs => [(mounted, [.parseCmdline, .mountPoint])]
  | .setChannel => [(mounted, mounting)]
  | .checkChannel => [((.channel, true) :: mounted, mounting), ((.channel, false) :: mounted, mounting)]
  | .act .lowlevelNew => [((.channel, true) :: mounted, mounting)]
  | .setSession => [((.channel, true) :: mounted, opening)]
  | .checkSession => [(all true, opening), (all false, opening)]
  | .act .setHandlers => [(all true, opening)]
  | .checkHandlers | .act .addToSession => [(all true, handling)]
  | .act .addChan => [(all true, handling ++ [.addToSession])]
  | .act .sessionLoop => [(all true, handling ++ [.addToSession, .addChan])]
  | .act .removeHandlers => [(all true, handling ++ [.addToSession, .addChan, .sessionLoop])]
  | .act .removeChan => [(all true, looped)]
  | .act .sessionDestroy => [(all true, handling), (all true, looped ++ [.removeChan])]
  | .act .unmountPoint => [(all false, opening), (all true, handling ++ [.sessionDestroy]),
    (all true, looped ++ [.removeChan, .sessionDestroy])]
  | .act .unmountChan => [(all false, opening ++ [.unmountPoint]),
    (all true, handling ++ [.sessionDestroy, .unmountPoint]),
    (all true, looped ++ [.removeChan, .sessionDestroy, .unmountPoint])]
  | .act .freeArgs => [(all false, opening ++ [.unmountPoint, .unmountChan]),
    (all true, handling ++ [.sessionDestroy, .unmountPoint, .unmountChan]),
    (all true, looped ++ [.removeChan, .sessionDestroy, .unmountPoint, .unmountChan])]
  | .done => [(args, [.parseCmdline]), ((.channel, false) :: mounted, mounting),
    (all false, opening ++ [.unmountPoint, .unmountChan, .freeArgs]),
    (all true, handling ++ [.sessionDestroy, .unmountPoint, .unmountChan, .freeArgs]),
    (all true, looped ++ [.removeChan, .sessionDestroy, .unmountPoint, .unmountChan, .freeArgs])]
where
  args := [(.fargs, true)]
  mounted := (.mountpoint, true) :: args
  all (session : Bool) := (.session, session) :: (.channel, true) :: mounted
  mounting : List Action := [.parseCmdline, .mountPoint, .mountArgs]
  opening : List Action := mounting ++ [.lowlevelNew]
  handling : List Action := opening ++ [.setHandlers]
  looped : List Action := handling ++ [.addToSession, .addChan, .sessionLoop, .removeHandlers]

def OnCourse (w : Lone) : Prop := (w.assigned, w.acted) ∈ courses w.pc

theorem onCourse_step {w w' : Lone} {ok : Bool} (h : OnCourse w) (hs : w.step ok = some w') :
    OnCourse w' := by
  obtain ⟨pc, assigned, acted⟩ := w
  unfold OnCourse at h
  have hall : ∀ c ∈ courses pc, ∀ w' ∈ Lone.step ⟨pc, c.1, c.2⟩ ok, OnCourse w' := by
    unfold OnCourse
    rcases pc with _ | _ | _ | _ | _ | _ | _ | a | _
    case act => rcases a <;> rcases ok <;> decide
    all_goals rcases ok <;> decide
  exact hall _ h w' hs

/-- What a worker acts on it has created. -/
theorem created_of_act (a : Action) : ∀ c ∈ courses (.act a), c.1.lookup a.field = some true := by
  rcases a <;> decide

/-- What a worker reads it has assigned. -/
theorem assigned_of_reads (pc : Pc) : ∀ c ∈ courses pc, ∀ f ∈ pc.reads, c.1.lookup f ≠ none := by
  rcases pc with _ | _ | _ | _ | _ | _ | _ | a | _
  case act =>
    rintro c hc _ ⟨⟩
    rw [created_of_act a c hc]
    exact Option.some_ne_none true
  all_goals decide

section Step

variable {s s' : State} {k : ℕ} {ok : Bool}

/-- An undisturbed step is the worker's own. -/
theorem view_step (hT : Tracked s) (hcourse : OnCourse (s.view k)) (hU : Undisturbed s (.step k ok))
    (h : step s (.step k ok) = some s') : (s.view k).step ok = some (s'.view k) := by
  obtain ⟨pc, hk, hexec⟩ := Option.bind_eq_some_iff.1 h
  have hview := view_eq hk
  have hpc : (s.view k).pc = pc := congrArg Lone.pc hview
  have hon : ((s.view k).assigned, (s.view k).acted) ∈ courses pc := by
    rw [← hpc]
    exact hcourse
  have hread : ∀ f, pc.reads = some f → (s.content f = none ↔ (s.view k).has f = false) :=
    fun f hf => content_eq_none_iff hT (hU pc hk f hf) (assigned_of_reads pc _ hon f hf)
  have hassign : ∀ f created pc', ((s.assign f k created).goto k pc').view k
      = ((s.view k).assign f created).goto pc' := by
    intro f created pc'
    rw [view_goto (show (s.assign f k created).pcs[k]? = some pc from hk), view_assign]
  unfold Lone.step
  rw [hpc]
  cases pc with
  | setArgs =>
    obtain rfl := Option.some.inj hexec
    rw [hassign]
  | setMountpoint =>
    obtain rfl := Option.some.inj hexec
    cases ok with
    | true => exact congrArg some (hassign _ _ _).symm
    | false => exact congrArg some (view_goto hk _).symm
  | setChannel | setSession =>
    obtain rfl := Option.some.inj hexec
    exact congrArg some (hassign _ _ _).symm
  | checkChannel =>
    obtain rfl := Option.some.inj hexec
    rw [view_goto hk]
    by_cases hcontent : s.content .channel = none
    · simp [hcontent, (hread .channel rfl).1 hcontent]
    · have hhas : (s.view k).has .channel = true := by
        rw [← Bool.not_eq_false]
        exact fun hhas => hcontent ((hread .channel rfl).2 hhas)
      simp [hcontent, hhas]
  | checkSession =>
    obtain rfl := Option.some.inj hexec
    rw [view_goto hk]
    by_cases hcontent : s.content .session = none
    · simp [hcontent, (hread .session rfl).1 hcontent]
    · have hhas : (s.view k).has .session = true := by
        rw [← Bool.not_eq_false]
        exact fun hhas => hcontent ((hread .session rfl).2 hhas)
      simp [hcontent, hhas]
  | checkHandlers =>
    obtain rfl := Option.some.inj hexec
    exact congrArg some (view_goto hk _).symm
  | act a =>
    obtain rfl := Option.some.inj hexec
    have hnext := view_goto (show (s.use k a).pcs[k]? = some (.act a) from hk) a.next
    rw [view_use] at hnext
    exact congrArg some hnext.symm
  | done => cases hexec

theorem view_step_ne {j : ℕ} (hj : j ≠ k) (h : step s (.step k ok) = some s') :
    s'.view j = s.view j := by
  cases move_of_step h with
  | goto _ _ pc pc' hk hrank hact => exact view_goto_ne hj pc'
  | assign _ _ pc pc' f created hk hrank hact =>
    rw [view_goto_ne hj, view_assign_ne hj]
  | use _ _ a hk => rw [view_goto_ne hj, view_use_ne hj]

end Step

/-- The workers are where they could be by themselves, and acted only on their own. -/
structure Apart (s : State) : Prop where
  tracked : Tracked s
  own : Own (fun _ => true) s
  course : ∀ k, OnCourse (s.view k)

theorem apart_init : Apart .init :=
  ⟨fun _ => rfl, fun _ hu => absurd hu List.not_mem_nil, fun _ => List.mem_singleton_self _⟩

theorem acquired_of_undisturbed {s : State} {e : Event} (hA : Apart s) (hU : Undisturbed s e) :
    AcquiredFor (fun _ => true) s e := by
  cases e with
  | mount => trivial
  | step k ok =>
    intro a ha _
    have hk : s.pcs[k]? = some (.act a) := by
      unfold State.action? at ha
      rcases hpc : s.pcs[k]? with _ | pc
      · rw [hpc] at ha
        cases ha
      · rw [hpc] at ha
        cases pc with
        | act b =>
          cases ha
          rfl
        | _ => cases ha
    have hpc : (s.view k).pc = .act a := congrArg Lone.pc (view_eq hk)
    have hown := hU _ hk a.field rfl
    have hcourse : ((s.view k).assigned, (s.view k).acted) ∈ courses (.act a) := hpc ▸ hA.course k
    have hcreated := created_of_act a _ hcourse
    have hhas : (s.view k).has a.field = true := decide_eq_true hcreated
    have hsome : (s.view k).assigned.lookup a.field ≠ none :=
      assigned_of_reads (.act a) _ hcourse a.field rfl
    have hcontent : s.content a.field ≠ none := by
      intro hnone
      rw [(content_eq_none_iff hA.tracked hown hsome).1 hnone] at hhas
      cases hhas
    obtain ⟨j, hj⟩ := Option.ne_none_iff_exists'.1 hcontent
    have hlatest := (content_eq_some_iff hA.tracked a.field j).1 hj
    rw [hlatest, show j = k from hown _ hlatest]

theorem apart_step {s s' : State} {e : Event} (hA : Apart s) (hU : Undisturbed s e)
    (h : step s e = some s') : Apart s' := by
  refine ⟨tracked_step hA.tracked h,
    (own_step_iff _ hA.tracked h).2 ⟨hA.own, acquired_of_undisturbed hA hU⟩, fun j => ?_⟩
  cases e with
  | mount =>
    obtain rfl := Option.some.inj h
    rw [view_mount]
    exact hA.course j
  | step k ok =>
    by_cases hj : j = k
    · rw [hj]
      exact onCourse_step (hA.course k) (view_step hA.tracked (hA.course k) hU h)
    · rw [view_step_ne hj h]
      exact hA.course j

section Run

variable {es : List Event} {s : State} (h : run step .init es = some s)
  (hU : Along step Undisturbed .init es)

include h hU

theorem apart_run : Apart s := inv_of_run (fun _ _ _ => apart_step) apart_init hU h

/-- Undisturbed, each worker does what it would do by itself. -/
theorem independent (k : ℕ) : run Lone.step .init (es.filterMap (Event.own k)) = some (s.view k) := by
  have hinit : State.init.view k = Lone.init := rfl
  rw [← hinit]
  refine run_view (fun s => s.view k) (Event.own k) (fun _ _ _ => apart_step)
    (fun m e m' hA hC hm => ?_) apart_init hU h
  cases e with
  | mount =>
    obtain rfl := Option.some.inj hm
    exact congrArg some view_mount.symm
  | step j ok =>
    by_cases hj : j = k
    · rw [← hj, Event.own, if_pos rfl]
      exact (run_cons Lone.step).2 ⟨_, view_step hA.tracked (hA.course j) hC hm, rfl⟩
    · rw [Event.own, if_neg hj]
      exact congrArg some (view_step_ne (Ne.symm hj) hm).symm

end Run

/-- The first worker cannot mount, and the second runs to the end of its session loop. -/
def failedMount : List Event :=
  [.mount] ++ List.replicate 5 (.step 0 true) ++ [.step 0 false, .step 0 true] ++ toLoop 1

theorem second_worker_independent :
    ∃ s, run step .init failedMount = some s
      ∧ run Lone.step .init (failedMount.filterMap (Event.own 1)) = some (s.view 1) :=
  ⟨_, rfl, independent rfl (by decide) 1⟩

theorem length_pcs_step {s s' : State} {e : Event} (h : step s e = some s') :
    s'.pcs.length = s.pcs.length + if e.isMount then 1 else 0 := by
  have hset : ∀ (t : State) (k : ℕ) (pc : Pc), (t.goto k pc).pcs.length = t.pcs.length :=
    fun _ _ _ => List.length_set
  cases move_of_step h with
  | mount => exact List.length_append
  | goto k ok pc pc' hk hrank hact => exact hset _ _ _
  | assign k ok pc pc' f created hk hrank hact => exact hset _ _ _
  | use k ok a hk => exact hset _ _ _

/-- The workers that assigned anything are mounted. -/
def Named (s : State) : Prop := ∀ x ∈ s.assigned, x.worker < s.pcs.length

theorem named_step {s s' : State} {e : Event} (hN : Named s) (h : step s e = some s') :
    Named s' := by
  have hlength := length_pcs_step h
  intro x hx
  rw [hlength]
  refine Nat.lt_add_right _ ?_
  cases move_of_step h with
  | mount => exact hN x hx
  | goto k ok pc pc' hk hrank hact => exact hN x hx
  | assign k ok pc pc' f created hk hrank hact =>
    rcases List.mem_cons.1 hx with rfl | hx
    · exact (List.getElem?_eq_some_iff.1 hk).1
    · exact hN x hx
  | use k ok a hk => exact hN x hx

/-- With one mount there is nobody to disturb its worker. -/
theorem undisturbed_of_one : ∀ (es : List Event) {s : State}, Named s →
    s.pcs.length + es.countP Event.isMount ≤ 1 → Along step Undisturbed s es
  | [], _, _, _ => trivial
  | e :: es, s, hN, hone => by
    rw [List.countP_cons] at hone
    have hU : Undisturbed s e := by
      cases e with
      | mount => trivial
      | step k ok =>
        intro pc hpc f _ x hx
        have hk := (List.getElem?_eq_some_iff.1 hpc).1
        have hx := hN x (List.mem_of_find?_eq_some hx)
        omega
    refine ⟨hU, fun s' hs' => undisturbed_of_one es (named_step hN hs') ?_⟩
    rw [length_pcs_step hs']
    omega

/-- The worker of a single mount is undisturbed, however its steps go. -/
theorem single_mount_undisturbed (es : List Event) (h : es.countP Event.isMount ≤ 1) :
    Along step Undisturbed .init es :=
  undisturbed_of_one es (fun _ hx => absurd hx List.not_mem_nil) (by simpa [State.init] using h)

theorem creates_iff {s : State} {k : ℕ} {f : Field} :
    s.creates k f ↔ (f, true) ∈ (s.view k).assigned := by
  unfold State.creates State.view
  rw [List.mem_map]
  refine ⟨fun h => ?_, fun h => ?_⟩
  · exact ⟨_, List.mem_filter.2 ⟨h, decide_eq_true rfl⟩, rfl⟩
  · obtain ⟨x, hx, heq⟩ := h
    obtain ⟨hmem, hworker⟩ := List.mem_filter.1 hx
    rw [Prod.mk.injEq] at heq
    rw [← heq.1, ← heq.2, ← of_decide_eq_true hworker]
    exact hmem

theorem mem_destroyed_iff {s : State} (hown : Own (fun _ => true) s) {k : ℕ} {f : Field} :
    (f, some k) ∈ s.destroyed
      ↔ f ∈ ((s.view k).acted.filter Action.destroys).map Action.field := by
  unfold State.destroyed State.view
  simp only [List.mem_map, List.mem_filter, Prod.mk.injEq, decide_eq_true_eq]
  refine ⟨fun h => ?_, fun h => ?_⟩
  · obtain ⟨u, ⟨hu, hdestroys⟩, hfield, hcreator⟩ := h
    rw [hown u hu rfl, Option.some.injEq] at hcreator
    exact ⟨u.action, ⟨⟨u, ⟨hu, hcreator⟩, rfl⟩, hdestroys⟩, hfield⟩
  · obtain ⟨a, ⟨⟨u, ⟨hu, hworker⟩, rfl⟩, hdestroys⟩, hfield⟩ := h
    exact ⟨u, ⟨hu, hdestroys⟩, hfield, by rw [hown u hu rfl, hworker]⟩

/-- A worker that has ended by itself without a channel has released nothing of what it created, and
else everything. -/
theorem released_of_done : ∀ c ∈ courses .done, ∀ f,
    (f ∈ (c.2.filter Action.destroys).map Action.field ↔ (f, true) ∈ c.1)
      ↔ (.channel, true) ∈ c.1 ∨ (f, true) ∉ c.1 := by
  intro c hc f
  revert c
  rcases f <;> decide

theorem args_created_of_done : ∀ c ∈ courses .done, (.fargs, true) ∈ c.1 := by decide

section Ended

variable {es : List Event} {s : State} (h : run step .init es = some s)
  (hU : Along step Undisturbed .init es) {k : ℕ} (hk : s.pcs[k]? = some .done)

include h hU hk

/-- Undisturbed, a worker that has ended has destroyed exactly what it created, each once, if and only
if it was able to mount. -/
theorem released_all_iff :
    (∀ f, (f, some k) ∈ s.destroyed ↔ s.creates k f) ↔ s.creates k .channel := by
  have hA := apart_run h hU
  have hpc : (s.view k).pc = .done := congrArg Lone.pc (view_eq hk)
  have hcourse : ((s.view k).assigned, (s.view k).acted) ∈ courses .done := hpc ▸ hA.course k
  simp only [mem_destroyed_iff hA.own, creates_iff]
  refine ⟨fun hall => ?_, fun hchannel f => ?_⟩
  · have hargs := args_created_of_done _ hcourse
    exact ((released_of_done _ hcourse .fargs).1 (hall .fargs)).resolve_right fun hnot => hnot hargs
  · exact (released_of_done _ hcourse f).2 (.inl hchannel)

end Ended

theorem one_worker_releases_all :
    ∃ s, run step .init (toLoop 0 ++ List.replicate 6 (.step 0 true)) = some s
      ∧ ((∀ f, (f, some 0) ∈ s.destroyed ↔ s.creates 0 f) ↔ s.creates 0 .channel) := by
  have hU := single_mount_undisturbed (toLoop 0 ++ List.replicate 6 (.step 0 true)) (by decide)
  exact ⟨_, rfl, released_all_iff rfl hU rfl⟩

end NodeFuse.Workers
