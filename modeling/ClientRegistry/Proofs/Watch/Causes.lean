import ClientRegistry.Proofs.Watch.Liveness

/-!
# Every cycle has its changes

A cycle starts only where one is owed, and its start pays all that is owed. So a change that counts
comes before each start and after the start before it, and all changes during a cycle are answered by
one more cycle. What cycles signal is told from how they end: each one starts, and reloads when it
has succeeded, before the next one starts.
-/

set_option autoImplicit false

namespace ClientRegistry.Watch

variable {ρ : Type}

namespace Signal

def counts (f : Filter) : Signal ρ → Bool
  | .change _ c => f.accepts c
  | _ => false

def succeeds : Signal ρ → Bool
  | .ended (.success _) => true
  | _ => false

def end? : Signal ρ → Option (CycleEnd ρ)
  | .ended e => some e
  | _ => none

end Signal

def Effect.isAct : Effect → Bool
  | .tell _ => false
  | _ => true

def CycleEnd.acts : CycleEnd ρ → List Effect
  | .success _ => [.startCycle, .reload .full]
  | _ => [.startCycle]

namespace Orchestrator

/-- What a run does on the signal `s` when it comes after `before`. -/
def effectsAt (o : Orchestrator ρ) (before : List (Signal ρ)) (s : Signal ρ) : List Effect :=
  match (o.run before).bind fun reached => reached.1.step s with
  | some (_, effects) => effects
  | none => []

variable {o next last : Orchestrator ρ} {s : Signal ρ} {signals before after : List (Signal ρ)}
  {effects told : List Effect}

theorem effectsAt_eq {earlier : List Effect} (hRun : o.run before = some (next, earlier))
    (hStep : next.step s = some (last, told)) : o.effectsAt before s = told := by
  rw [effectsAt, hRun, Option.bind_some, hStep]

theorem exists_step_of_run (h : o.run (before ++ s :: after) = some (last, effects)) :
    ∃ reached earlier next more, o.run before = some (reached, earlier) ∧
      reached.step s = some (next, o.effectsAt before s) ∧ next.run after = some (last, more) := by
  obtain ⟨reached, earlier, later, hBefore, hLater, rfl⟩ := run_append_eq_some_iff.mp h
  obtain ⟨next, told, more, hStep, hAfter, rfl⟩ := run_cons_eq_some_iff.mp hLater
  rw [effectsAt_eq hBefore hStep]
  exact ⟨reached, earlier, next, more, hBefore, hStep, hAfter⟩

theorem exists_step_of_mem_effectsAt {e : Effect} (h : e ∈ o.effectsAt before s) :
    ∃ reached earlier next, o.run before = some (reached, earlier) ∧
      reached.step s = some (next, o.effectsAt before s) := by
  have hEffects := h
  unfold effectsAt at hEffects
  split at hEffects
  · rename_i next told hStep
    obtain ⟨⟨reached, earlier⟩, hRun, hNext⟩ := Option.bind_eq_some_iff.mp hStep
    rw [effectsAt_eq hRun hNext]
    exact ⟨reached, earlier, next, hRun, hNext⟩
  · cases hEffects

/-- What is done later is done from where the run has come to. -/
theorem effectsAt_append {earlier : List Effect} (hRun : o.run before = some (next, earlier)) :
    o.effectsAt (before ++ after) s = next.effectsAt after s := by
  cases hAfter : next.run after with
  | none =>
    have hNone : o.run (before ++ after) = none := by
      rw [Option.eq_none_iff_forall_ne_some]
      intro reached hReached
      obtain ⟨middle, _, _, hMiddle, hMore, -⟩ := run_append_eq_some_iff.mp hReached
      obtain ⟨rfl, rfl⟩ := Prod.mk.inj (Option.some.inj (hMiddle.symm.trans hRun))
      rw [hAfter] at hMore
      cases hMore
    rw [effectsAt, effectsAt, hNone, hAfter]
  | some reached =>
    have hSome := run_append_eq_some_iff.mpr ⟨next, earlier, reached.2, hRun, hAfter, rfl⟩
    rw [effectsAt, effectsAt, hSome, hAfter]
    rfl

/-! ### Steps that start a cycle -/

/-- The steps that start a cycle: a deadline passes, or a cycle ends with a change waiting. -/
inductive StartsCycle (o : Orchestrator ρ) : Signal ρ → Orchestrator ρ → List Effect → Prop where
  | timer {held : ρ} (hArmed : o.deadline.isSome = true) (hHeld : o.regenerator = some held) :
      StartsCycle o .due { o with deadline := none, regenerator := none, phase := .generating, cycle := some held }
        [.startCycle]
  | followUp {e : CycleEnd ρ} {value : ρ} (hCycle : o.cycle.isSome = true) (hReturned : e.returned? = some value)
      (hPhase : o.phase = .regenPending) :
      StartsCycle o (.ended e) { o with cycle := some value, regenerator := none, phase := .generating }
        (e.report ++ [.tell (Log.debug "Changes arrived during generation, regenerating"), .startCycle])

theorem startsCycle_of_step (hStep : o.step s = some (next, effects)) (hStart : .startCycle ∈ effects) :
    o.StartsCycle s next effects := by
  obtain ⟨-, hMove⟩ := step_eq_some_iff.mp hStep
  cases hMove with
  | started hArmed hHeld => exact .timer hArmed hHeld
  | followed hCycle hReturned hPhase => exact .followUp hCycle hReturned hPhase
  | rested => exact absurd hStart (CycleEnd.startCycle_not_mem_report _)
  | panicked => exact absurd hStart (CycleEnd.startCycle_not_mem_report _)
  | _ => simp at hStart

namespace StartsCycle

theorem owes (h : o.StartsCycle s next effects) : o.Owes := by
  cases h with
  | timer hArmed => exact .inl hArmed
  | followUp _ _ hPhase => exact .inr hPhase

theorem count_startCycle (h : o.StartsCycle s next effects) : effects.count .startCycle = 1 := by
  cases h with
  | timer => rfl
  | followUp => simp [List.count_eq_zero_of_not_mem (CycleEnd.startCycle_not_mem_report _)]

/-- The start comes last. -/
theorem exists_told (h : o.StartsCycle s next effects) :
    ∃ told, effects = told ++ [.startCycle] ∧ .startCycle ∉ told := by
  cases h with
  | timer => exact ⟨[], rfl, List.not_mem_nil⟩
  | followUp =>
    refine ⟨_, List.append_cons .., ?_⟩
    simp [CycleEnd.startCycle_not_mem_report]

theorem cycle (h : o.StartsCycle s next effects) : next.cycle.isSome = true := by
  cases h <;> rfl

theorem phase (h : o.StartsCycle s next effects) : next.phase = .generating := by
  cases h <;> rfl

theorem not_owes (h : o.StartsCycle s next effects) (hCoherent : Coherent o) : ¬ next.Owes := by
  cases h with
  | timer => simp [Owes]
  | followUp hCycle => simp [Owes, hCoherent.deadline_eq_none_of_cycle hCycle]

theorem ne_panic (h : o.StartsCycle s next effects) : s ≠ .ended .panic := by
  rintro rfl
  cases h with
  | followUp _ hReturned => cases hReturned

end StartsCycle

/-- A step that starts no cycle ends the running one or leaves it running. -/
theorem cycle_of_not_starts (h : Coherent o) (hStep : o.step s = some (next, effects))
    (hStart : .startCycle ∉ effects) :
    (∃ e, s = .ended e ∧ next.cycle = none) ∨ (s.end? = none ∧ next.cycle = o.cycle) := by
  obtain ⟨-, hMove⟩ := step_eq_some_iff.mp hStep
  cases hMove with
  | ignored | armed | noted | closed => exact .inr ⟨rfl, rfl⟩
  | started | followed => simp at hStart
  | missed hArmed hHeld =>
    obtain ⟨held, hSome⟩ := h.held_of_armed hArmed
    cases hHeld.symm.trans hSome
  | rested | panicked => exact .inl ⟨_, rfl, rfl⟩

/-! ### Orchestrators that go on are coherent -/

theorem step_lost (h : o.step s = some (next, effects)) (hPanic : s ≠ .ended .panic) : next.lost = o.lost := by
  rw [(step_eq_some_iff.mp h).1, ← Bool.not_eq_true, step_lost_iff h]
  exact hPanic

theorem Coherent.of_run (h : Coherent o) (hRun : o.run signals = some (last, effects))
    (hLost : last.lost = false) : Coherent last := by
  refine run_preserves (fun reached => reached.lost = false → Coherent reached) ?_ hRun (fun _ => h) hLost
  intro reached next s told _ hReached hStep hNext
  apply (hReached (step_eq_some_iff.mp hStep).1).step hStep
  rintro rfl
  cases ((step_lost_iff hStep).mpr rfl).symm.trans hNext

theorem Coherent.of_run_step {reached : Orchestrator ρ} (h : Coherent o)
    (hRun : o.run before = some (reached, effects)) (hStep : reached.step s = some (next, told)) :
    Coherent reached :=
  h.of_run hRun (step_eq_some_iff.mp hStep).1

/-! ### What is owed -/

instance (o : Orchestrator ρ) : Decidable o.Owes :=
  inferInstanceAs (Decidable (o.deadline.isSome = true ∨ o.phase = .regenPending))

/-- Only a change that counts makes something owed. -/
theorem not_owes_of_step (hStep : o.step s = some (next, effects)) (hCounts : s.counts o.filter = false)
    (hOwes : ¬ o.Owes) : ¬ next.Owes := by
  obtain ⟨-, hMove⟩ := step_eq_some_iff.mp hStep
  cases hMove with
  | armed _ hAccepted => exact absurd hAccepted (by simpa [Signal.counts] using hCounts)
  | noted _ hAccepted => exact absurd hAccepted (by simpa [Signal.counts] using hCounts)
  | started hArmed => exact absurd (.inl hArmed) hOwes
  | followed _ _ hPhase => exact absurd (.inr hPhase) hOwes
  | ignored => exact hOwes
  | closed => exact hOwes
  | missed hArmed => exact absurd (.inl hArmed) hOwes
  | rested =>
    rw [Owes, not_or] at hOwes ⊢
    exact ⟨hOwes.1, by simp⟩
  | panicked => exact hOwes

theorem not_owes_of_run (hRun : o.run signals = some (last, effects))
    (hCounts : signals.any (Signal.counts o.filter) = false) (hOwes : ¬ o.Owes) : ¬ last.Owes := by
  rw [List.any_eq_false] at hCounts
  refine (run_preserves (fun reached => reached.filter = o.filter ∧ ¬ reached.Owes) ?_ hRun ⟨rfl, hOwes⟩).2
  rintro reached next s told hs ⟨hFilter, hReached⟩ hStep
  refine ⟨(step_filter hStep).trans hFilter, not_owes_of_step hStep ?_ hReached⟩
  rw [hFilter]
  exact Bool.eq_false_iff.mpr (hCounts s hs)

/-- A start spends what a change has made owed. -/
theorem count_startCycle_add_owes (h : Coherent o) (hStep : o.step s = some (next, effects)) :
    effects.count .startCycle + (if next.Owes then 1 else 0) ≤
      (if o.Owes then 1 else 0) + (if s.counts o.filter then 1 else 0) := by
  by_cases hStart : .startCycle ∈ effects
  · have hStarts := startsCycle_of_step hStep hStart
    rw [hStarts.count_startCycle, if_neg (hStarts.not_owes h), if_pos hStarts.owes]
    omega
  · rw [List.count_eq_zero_of_not_mem hStart, Nat.zero_add]
    by_cases hOwes : o.Owes
    · rw [if_pos hOwes]
      split <;> omega
    · cases hCounts : s.counts o.filter with
      | true =>
        rw [if_pos rfl]
        split <;> omega
      | false =>
        rw [if_neg (not_owes_of_step hStep hCounts hOwes)]
        exact Nat.zero_le _

theorem count_startCycle_add_owes_of_run (h : Coherent o) (hRun : o.run signals = some (last, effects)) :
    effects.count .startCycle + (if last.Owes then 1 else 0) ≤
      (if o.Owes then 1 else 0) + signals.countP (Signal.counts o.filter) := by
  refine run_induction (fun signals last effects => effects.count .startCycle + (if last.Owes then 1 else 0) ≤
    (if o.Owes then 1 else 0) + signals.countP (Signal.counts o.filter)) ?_ ?_ hRun
  · simp
  · intro before reached earlier s next told hBefore hStep hLe
    have hNext := count_startCycle_add_owes (h.of_run_step hBefore hStep) hStep
    rw [run_filter hBefore] at hNext
    rw [List.count_append, List.countP_append, List.countP_singleton]
    omega

theorem count_startCycle_le (h : Coherent o) (hOwes : ¬ o.Owes) (hRun : o.run signals = some (last, effects)) :
    effects.count .startCycle + (if last.Owes then 1 else 0) ≤ signals.countP (Signal.counts o.filter) := by
  have hPaid := count_startCycle_add_owes_of_run h hRun
  rwa [if_neg hOwes, Nat.zero_add] at hPaid

theorem counts_of_startCycle (hOwes : ¬ o.Owes) (hStart : .startCycle ∈ o.effectsAt signals s) :
    signals.any (Signal.counts o.filter) = true := by
  obtain ⟨reached, earlier, next, hRun, hStep⟩ := exists_step_of_mem_effectsAt hStart
  by_cases hCounts : signals.any (Signal.counts o.filter) = true
  · exact hCounts
  · exact absurd (startsCycle_of_step hStep hStart).owes (not_owes_of_run hRun (eq_false_of_ne_true hCounts) hOwes)

/-! ### During a cycle -/

theorem step_of_cycle (h : Coherent o) (hCycle : o.cycle.isSome = true)
    (hStep : o.step s = some (next, effects)) (hEnd : s.end? = none) :
    next.cycle.isSome = true ∧ .startCycle ∉ effects ∧
      (next.phase = .regenPending ↔ o.phase = .regenPending ∨ s.counts o.filter = true) := by
  have hNotArmed : o.deadline.isSome ≠ true := by simp [h.deadline_eq_none_of_cycle hCycle]
  obtain ⟨-, hMove⟩ := step_eq_some_iff.mp hStep
  cases hMove with
  | ignored _ hRejected => exact ⟨hCycle, by simp, by simp [Signal.counts, hRejected]⟩
  | armed _ _ hIdle =>
    rw [h.idle_iff.mp hIdle] at hCycle
    cases hCycle
  | noted _ hAccepted => exact ⟨hCycle, by simp, by simp [Signal.counts, hAccepted]⟩
  | closed => exact ⟨hCycle, by simp, by simp [Signal.counts]⟩
  | started hArmed => exact absurd hArmed hNotArmed
  | missed hArmed => exact absurd hArmed hNotArmed
  | rested => cases hEnd
  | followed => cases hEnd
  | panicked => cases hEnd

/-- While a cycle runs none starts, and the phase says whether a change has come. -/
theorem run_of_cycle (h : Coherent o) (hCycle : o.cycle.isSome = true)
    (hRun : o.run signals = some (last, effects)) (hEnd : ∀ x ∈ signals, x.end? = none) :
    last.cycle.isSome = true ∧ .startCycle ∉ effects ∧
      (last.phase = .regenPending ↔ o.phase = .regenPending ∨ signals.any (Signal.counts o.filter) = true) := by
  refine run_induction (fun signals last effects => (∀ x ∈ signals, x.end? = none) →
    last.cycle.isSome = true ∧ .startCycle ∉ effects ∧
      (last.phase = .regenPending ↔ o.phase = .regenPending ∨ signals.any (Signal.counts o.filter) = true))
    ?_ ?_ hRun hEnd
  · intro _
    exact ⟨hCycle, List.not_mem_nil, by simp⟩
  · intro before reached earlier s next told hBefore hStep hReached hEnd
    obtain ⟨hCycle', hEarlier, hPhase⟩ := hReached fun x hx => hEnd x (List.mem_append_left _ hx)
    obtain ⟨hNext, hTold, hNextPhase⟩ := step_of_cycle (h.of_run_step hBefore hStep) hCycle' hStep
      (hEnd s (List.mem_append_right _ List.mem_cons_self))
    refine ⟨hNext, ?_, ?_⟩
    · rw [List.mem_append, not_or]
      exact ⟨hEarlier, hTold⟩
    · rw [hNextPhase, hPhase, run_filter hBefore, List.any_append, Bool.or_eq_true, or_assoc]
      simp

theorem count_startCycle_of_ended {e : CycleEnd ρ} (hStep : o.step (.ended e) = some (next, effects))
    (hPanic : e ≠ .panic) : effects.count .startCycle = if o.phase = .regenPending then 1 else 0 := by
  have hReport := List.count_eq_zero_of_not_mem (CycleEnd.startCycle_not_mem_report e)
  obtain ⟨-, hMove⟩ := step_eq_some_iff.mp hStep
  cases hMove with
  | rested _ _ hPhase => rw [if_neg hPhase, hReport]
  | followed _ _ hPhase => simp [hPhase, hReport]
  | panicked => exact absurd rfl hPanic

/-- A cycle that runs has started, and nothing has ended since. -/
theorem exists_start_of_cycle (hIdle : o.cycle = none) (hRun : o.run signals = some (last, effects))
    (hCycle : last.cycle.isSome = true) :
    ∃ before s during, signals = before ++ s :: during ∧ .startCycle ∈ o.effectsAt before s ∧
      ∀ x ∈ during, x.end? = none := by
  refine run_induction (fun signals last _ => last.cycle.isSome = true → ∃ before s during,
    signals = before ++ s :: during ∧ .startCycle ∈ o.effectsAt before s ∧ ∀ x ∈ during, x.end? = none)
    ?_ ?_ hRun hCycle
  · intro hSome
    rw [hIdle] at hSome
    cases hSome
  · intro earlier reached _ s next told hEarlier hStep hReached hNext
    by_cases hStart : .startCycle ∈ told
    · refine ⟨earlier, s, [], rfl, ?_, nofun⟩
      rwa [effectsAt_eq hEarlier hStep]
    · have hRuns : reached.cycle.isSome = true ∧ s.end? = none := by
        obtain ⟨-, hMove⟩ := step_eq_some_iff.mp hStep
        cases hMove with
        | started => exact absurd List.mem_cons_self hStart
        | followed => simp at hStart
        | missed => cases hNext
        | rested => cases hNext
        | panicked => cases hNext
        | _ => exact ⟨hNext, rfl⟩
      obtain ⟨before, began, during, rfl, hBegan, hDuring⟩ := hReached hRuns.1
      refine ⟨before, began, during ++ [s], by simp, hBegan, ?_⟩
      intro x hx
      rcases List.mem_append.mp hx with hOld | hNew
      · exact hDuring x hOld
      · rw [List.mem_singleton.mp hNew]
        exact hRuns.2

/-! ### Starts and reloads -/

theorem count_reload_of_step (hStep : o.step s = some (next, effects)) :
    effects.count (.reload .full) = if s.succeeds then 1 else 0 := by
  obtain ⟨-, hMove⟩ := step_eq_some_iff.mp hStep
  cases hMove with
  | @rested e => cases e <;> rfl
  | @followed e => cases e <;> simp [CycleEnd.report, Signal.succeeds]
  | _ => simp [Signal.succeeds, CycleEnd.report]

/-- What is done of the running cycle and by the step is what is done of the cycle that ends and of
the one that runs then. -/
theorem acts_of_step (h : Coherent o) (hStep : o.step s = some (next, effects)) :
    o.cycle.toList.map (fun _ => Effect.startCycle) ++ effects.filter Effect.isAct =
      s.end?.toList.flatMap CycleEnd.acts ++ next.cycle.toList.map (fun _ => Effect.startCycle) := by
  obtain ⟨-, hMove⟩ := step_eq_some_iff.mp hStep
  cases hMove with
  | ignored => simp [Effect.isAct, Signal.end?]
  | armed => simp [Effect.isAct, Signal.end?]
  | noted => simp [Effect.isAct, Signal.end?]
  | closed => simp [Signal.end?]
  | started hArmed =>
    have hIdle : o.cycle = none := h.idle_iff.mp (h.armed hArmed)
    simp [hIdle, Effect.isAct, Signal.end?]
  | missed hArmed hHeld =>
    obtain ⟨held, hSome⟩ := h.held_of_armed hArmed
    rw [hHeld] at hSome
    cases hSome
  | @rested e next hCycle =>
    obtain ⟨value, hValue⟩ := Option.isSome_iff_exists.mp hCycle
    cases e <;> simp [hValue, Signal.end?, CycleEnd.report, CycleEnd.acts, Effect.isAct]
  | @followed e next hCycle =>
    obtain ⟨value, hValue⟩ := Option.isSome_iff_exists.mp hCycle
    cases e <;> simp [hValue, Signal.end?, CycleEnd.report, CycleEnd.acts, Effect.isAct, List.filter_cons]
  | panicked hCycle =>
    obtain ⟨value, hValue⟩ := Option.isSome_iff_exists.mp hCycle
    simp [hValue, Signal.end?, CycleEnd.report, CycleEnd.acts, Effect.isAct]

theorem acts_of_run (h : Coherent o) (hIdle : o.cycle = none) (hRun : o.run signals = some (last, effects)) :
    effects.filter Effect.isAct = (signals.filterMap Signal.end?).flatMap CycleEnd.acts ++
      last.cycle.toList.map (fun _ => Effect.startCycle) := by
  refine run_induction (fun signals last effects => effects.filter Effect.isAct =
    (signals.filterMap Signal.end?).flatMap CycleEnd.acts ++
      last.cycle.toList.map (fun _ => Effect.startCycle)) ?_ ?_ hRun
  · simp [hIdle]
  · intro before reached earlier s next told hBefore hStep hReached
    have hNext := acts_of_step (h.of_run_step hBefore hStep) hStep
    have hEnds : (before ++ [s]).filterMap Signal.end? = before.filterMap Signal.end? ++ s.end?.toList := by
      rw [List.filterMap_append]
      cases hEnd : s.end? <;> simp [hEnd]
    rw [List.filter_append, hReached, List.append_assoc, hNext, hEnds, List.flatMap_append, List.append_assoc]

/-! ### All runs -/

structure CyclesFollowChanges (begun : Orchestrator ρ) : Prop where
  first : ∀ before s, .startCycle ∈ begun.effectsAt before s →
    before.any (Signal.counts begun.filter) = true
  between : ∀ before s during s', .startCycle ∈ begun.effectsAt before s →
    .startCycle ∈ begun.effectsAt (before ++ s :: during) s' → during.any (Signal.counts begun.filter) = true
  count_le : ∀ signals o effects, begun.run signals = some (o, effects) →
    effects.count .startCycle ≤ signals.countP (Signal.counts begun.filter)
  /-- No cycle starts while one runs. When it ends, but for a panic, one starts if a change has come. -/
  followUp : ∀ before s during e o effects, begun.run (before ++ s :: (during ++ [.ended e])) = some (o, effects) →
    .startCycle ∈ begun.effectsAt before s → (∀ x ∈ during, x.end? = none) → e ≠ .panic →
      (∀ earlier x later, during = earlier ++ x :: later →
        .startCycle ∉ begun.effectsAt (before ++ s :: earlier) x) ∧
      (begun.effectsAt (before ++ s :: during) (.ended e)).count .startCycle =
        if during.any (Signal.counts begun.filter) then 1 else 0
  /-- The cycles that have ended, in order, have each started and then reloaded if they have succeeded,
  and the running one has started. -/
  acts : ∀ signals o effects, begun.run signals = some (o, effects) →
    effects.filter Effect.isAct = (signals.filterMap Signal.end?).flatMap CycleEnd.acts ++
      o.cycle.toList.map (fun _ => Effect.startCycle)
  reloads : ∀ before s o effects, begun.run (before ++ [s]) = some (o, effects) →
    (begun.effectsAt before s).count (.reload .full) = if s.succeeds then 1 else 0

theorem cyclesFollowChanges (filter : Filter) (debounce : Nat) (first : ρ) :
    CyclesFollowChanges (start filter debounce first) := by
  have hCoherent := Coherent.start filter debounce first
  have hOwes : ¬ (start filter debounce first).Owes := by simp [Owes, start]
  refine ⟨fun before s => counts_of_startCycle hOwes, ?_, ?_, ?_, ?_, ?_⟩
  · intro before s during s' hStart hNextStart
    obtain ⟨reached, earlier, next, hRun, hStep⟩ := exists_step_of_mem_effectsAt hStart
    have hNext := (startsCycle_of_step hStep hStart).not_owes (hCoherent.of_run_step hRun hStep)
    have hConcat := run_concat hRun hStep
    rw [List.append_cons, effectsAt_append hConcat] at hNextStart
    have hCounts := counts_of_startCycle hNext hNextStart
    rwa [run_filter hConcat] at hCounts
  · intro signals o effects hRun
    exact Nat.le_trans (Nat.le_add_right _ _) (count_startCycle_le hCoherent hOwes hRun)
  · intro before s during e o effects hRun hStart hEnd hPanic
    obtain ⟨reached, earlier, next, _, hBefore, hStep, hRest⟩ := exists_step_of_run hRun
    have hConcat := run_concat hBefore hStep
    have hStarts := startsCycle_of_step hStep hStart
    have hNext : Coherent next := (hCoherent.of_run_step hBefore hStep).step hStep hStarts.ne_panic
    constructor
    · rintro earlier x later rfl
      rw [List.append_assoc, List.cons_append] at hRest
      obtain ⟨middle, _, _, _, hEarlier, hMiddle, -⟩ := exists_step_of_run hRest
      have hRunning := run_of_cycle hNext hStarts.cycle hEarlier
        fun y hy => hEnd y (List.mem_append_left _ hy)
      rw [List.append_cons, effectsAt_append hConcat]
      exact (step_of_cycle (hNext.of_run_step hEarlier hMiddle) hRunning.1 hMiddle
        (hEnd x (List.mem_append_right _ List.mem_cons_self))).2.1
    · obtain ⟨ended, _, _, _, hDuring, hEnded, -⟩ := exists_step_of_run hRest
      have hPhase := (run_of_cycle hNext hStarts.cycle hDuring hEnd).2.2
      rw [hStarts.phase, run_filter hConcat] at hPhase
      rw [List.append_cons, effectsAt_append hConcat, count_startCycle_of_ended hEnded hPanic]
      simp [hPhase]
  · intro signals o effects hRun
    exact acts_of_run hCoherent rfl hRun
  · intro before s o effects hRun
    obtain ⟨reached, earlier, next, _, hBefore, hStep, -⟩ := exists_step_of_run hRun
    exact count_reload_of_step hStep

/-- The change during the first cycle has it followed by another one. -/
theorem cyclesFollowChanges_followedUp :
    (∃ o effects, counting.run (followedUp.take 4) = some (o, effects)) ∧
      .startCycle ∈ counting.effectsAt (followedUp.take 1) .due ∧
      (counting.effectsAt (followedUp.take 3) (.ended (.success 1))).count .startCycle = 1 :=
  ⟨⟨_, _, rfl⟩, by decide,
    ((cyclesFollowChanges ⟨"/p", ["gen", "/p/gen"]⟩ 100 0).followUp (followedUp.take 1) .due
      [.change 150 ⟨.modified, "b.proto"⟩] (.success 1) _ _ rfl (by decide) (by simp [Signal.end?]) nofun).2⟩

end Orchestrator

end ClientRegistry.Watch
