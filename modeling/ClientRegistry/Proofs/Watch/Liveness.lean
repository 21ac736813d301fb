import ClientRegistry.Proofs.Watch.Coherence

/-!
# No change is lost

A change that counts leaves a cycle owed: by a deadline while no cycle runs, by the phase while one
does. Each move hands what is owed on to the next state or starts a cycle, and nothing is owed
where a run ends. So a cycle starts after each change that counts.
-/

set_option autoImplicit false

namespace ClientRegistry.Watch.Orchestrator

variable {ρ : Type}

/-- A cycle has still to start for a change that has been taken in. -/
def Owes (o : Orchestrator ρ) : Prop := o.deadline.isSome = true ∨ o.phase = .regenPending

theorem owes_of_change {o next : Orchestrator ρ} {now : Nat} {c : Change} {effects : List Effect}
    (hStep : o.step (.change now c) = some (next, effects)) (hAccepted : o.filter.accepts c = true) :
    next.Owes := by
  obtain ⟨-, hMove⟩ := step_eq_some_iff.mp hStep
  cases hMove with
  | ignored _ hRejected =>
    rw [hAccepted] at hRejected
    cases hRejected
  | armed => exact .inl rfl
  | noted => exact .inr rfl

/-- What is owed stays owed until a cycle starts. -/
theorem owes_of_step {o next : Orchestrator ρ} {s : Signal ρ} {effects : List Effect} (h : Coherent o)
    (hStep : o.step s = some (next, effects)) (hPanic : s ≠ .ended .panic) (hOwes : o.Owes) :
    next.Owes ∨ .startCycle ∈ effects := by
  obtain ⟨-, hMove⟩ := step_eq_some_iff.mp hStep
  cases hMove with
  | ignored => exact .inl hOwes
  | armed => exact .inl (.inl rfl)
  | noted => exact .inl (.inr rfl)
  | closed => exact .inl hOwes
  | started => exact .inr List.mem_cons_self
  | missed hArmed hHeld =>
    obtain ⟨held, hSome⟩ := h.held_of_armed hArmed
    rw [hHeld] at hSome
    cases hSome
  | rested hCycle _ hPhase =>
    rcases hOwes with hArmed | hPending
    · rw [h.deadline_eq_none_of_cycle hCycle] at hArmed
      cases hArmed
    · exact absurd hPending hPhase
  | followed => exact .inr (by simp)
  | panicked => exact absurd rfl hPanic

theorem owes_of_run {o last : Orchestrator ρ} {signals : List (Signal ρ)} {effects : List Effect}
    (h : Coherent o) (hRun : o.run signals = some (last, effects)) (hPanic : Signal.ended .panic ∉ signals)
    (hOwes : o.Owes) : last.Owes ∨ .startCycle ∈ effects := by
  induction signals generalizing o effects with
  | nil =>
    cases hRun
    exact .inl hOwes
  | cons s rest ih =>
    obtain ⟨next, first, more, hStep, hRest, rfl⟩ := run_cons_eq_some_iff.mp hRun
    have hFirst : s ≠ .ended .panic := fun hEq => hPanic (hEq ▸ List.mem_cons_self)
    rcases owes_of_step h hStep hFirst hOwes with hNext | hStarted
    · rcases ih (h.step hStep hFirst) hRest (fun hMem => hPanic (List.mem_cons_of_mem _ hMem)) hNext with
        hLast | hStarted
      · exact .inl hLast
      · exact .inr (List.mem_append_right _ hStarted)
    · exact .inr (List.mem_append_left _ hStarted)

theorem Coherent.not_owes_of_isDone {o : Orchestrator ρ} (h : Coherent o) (hDone : o.isDone = true) :
    ¬ o.Owes := by
  obtain ⟨-, hDeadline, hCycle⟩ := h.isDone_iff.mp hDone
  rintro (hArmed | hPending)
  · simp [hDeadline] at hArmed
  · rw [h.idle_iff.mpr hCycle] at hPending
    cases hPending

/-- In a run without a panic that ends, a cycle starts after each change that counts. -/
theorem startCycle_after_change {filter : Filter} {debounce : Nat} {first : ρ}
    (before : List (Signal ρ)) {after : List (Signal ρ)} {now : Nat} {c : Change} {last : Orchestrator ρ}
    {effects : List Effect}
    (hRun : (start filter debounce first).run (before ++ .change now c :: after) = some (last, effects))
    (hDone : last.isDone = true) (hPanic : Signal.ended .panic ∉ before ++ .change now c :: after)
    (hAccepted : filter.accepts c = true) :
    ∃ taken earlier later, (start filter debounce first).run (before ++ [.change now c]) = some (taken, earlier) ∧
      taken.run after = some (last, later) ∧ effects = earlier ++ later ∧ .startCycle ∈ later := by
  rw [List.append_cons] at hRun hPanic
  obtain ⟨taken, earlier, later, hEarlier, hLater, rfl⟩ := run_append_eq_some_iff.mp hRun
  obtain ⟨o, head, _, hBefore, hChange, -⟩ := run_append_eq_some_iff.mp hEarlier
  obtain ⟨_, _, _, hStep, hNil, -⟩ := run_cons_eq_some_iff.mp hChange
  cases hNil
  have hTaken : Coherent taken :=
    (Coherent.start filter debounce first).run hEarlier fun hMem => hPanic (List.mem_append_left _ hMem)
  have hFilter : o.filter = filter := run_filter hBefore
  have hOwes : taken.Owes := owes_of_change hStep (by rwa [hFilter])
  have hRest := owes_of_run hTaken hLater (fun hMem => hPanic (List.mem_append_right _ hMem)) hOwes
  have hLast : Coherent last := (Coherent.start filter debounce first).run hRun hPanic
  rcases hRest with hOwed | hStarted
  · exact absurd hOwed (hLast.not_owes_of_isDone hDone)
  · exact ⟨taken, earlier, later, hEarlier, hLater, rfl, hStarted⟩

/-- The change comes during a cycle, and the changes end before the next one. -/
theorem startCycle_after_change_during_cycle :
    ∃ last effects, counting.run followedUp = some (last, effects) ∧ last.isDone = true ∧
      Signal.ended .panic ∉ followedUp ∧ counting.filter.accepts ⟨.modified, "b.proto"⟩ = true ∧
      ∃ taken earlier later, counting.run (followedUp.take 3) = some (taken, earlier) ∧
        taken.run (followedUp.drop 3) = some (last, later) ∧ effects = earlier ++ later ∧ .startCycle ∈ later :=
  ⟨_, _, rfl, rfl, by decide, rfl,
    startCycle_after_change [.change 0 ⟨.created, "a.proto"⟩, .due] rfl rfl (by decide) rfl⟩

end ClientRegistry.Watch.Orchestrator
