import ClientRegistry.Watch.Orchestrator

/-!
# The moves of an orchestrator

What a step can do is said once, move by move, with the condition of each move. A step is a move
of an orchestrator that no panic has ended, and a run is a chain of steps that may be cut anywhere.
-/

set_option autoImplicit false

namespace ClientRegistry.Watch

variable {ρ : Type}

namespace CycleEnd

def returned? : CycleEnd ρ → Option ρ
  | success next => some next
  | failure next _ => some next
  | panic => none

def report : CycleEnd ρ → List Effect
  | success _ => [.tell (Log.info "Regenerated clients, reloading"), .reload .full]
  | failure _ cause => [.tell (Log.error ("Regeneration failed: " ++ cause))]
  | panic => [.tell (Log.error "Regeneration task failed:")]

@[simp] theorem returned?_eq_none_iff (e : CycleEnd ρ) : e.returned? = none ↔ e = .panic := by
  cases e <;> simp [returned?]

theorem ne_panic_of_returned {e : CycleEnd ρ} {next : ρ} (h : e.returned? = some next) : e ≠ .panic := by
  rintro rfl
  cases h

theorem startCycle_not_mem_report (e : CycleEnd ρ) : Effect.startCycle ∉ e.report := by
  cases e <;> simp [report]

end CycleEnd

namespace Orchestrator

/-- The steps of an orchestrator, one constructor for each thing it can do. -/
inductive Move (o : Orchestrator ρ) : Signal ρ → Orchestrator ρ → List Effect → Prop where
  | ignored {now : Nat} {c : Change} (hOpen : o.isOpen = true) (hRejected : o.filter.accepts c = false) :
      Move o (.change now c) o [.tell (Log.debug ("Ignoring " ++ changeText c))]
  | armed {now : Nat} {c : Change} (hOpen : o.isOpen = true) (hAccepted : o.filter.accepts c = true)
      (hIdle : o.phase = .idle) :
      Move o (.change now c) { o with deadline := some (now + o.debounce) } [.tell (Log.debug (changeText c))]
  | noted {now : Nat} {c : Change} (hOpen : o.isOpen = true) (hAccepted : o.filter.accepts c = true)
      (hBusy : o.phase ≠ .idle) :
      Move o (.change now c) { o with phase := .regenPending } [.tell (Log.debug (changeText c))]
  | closed (hOpen : o.isOpen = true) : Move o .closed { o with isOpen := false } []
  | started {held : ρ} (hArmed : o.deadline.isSome = true) (hHeld : o.regenerator = some held) :
      Move o .due { o with deadline := none, regenerator := none, phase := .generating, cycle := some held }
        [.startCycle]
  /-- The deadline passes while the regenerator is away: no cycle starts, and the handle of the
  running one is dropped. -/
  | missed (hArmed : o.deadline.isSome = true) (hHeld : o.regenerator = none) :
      Move o .due { o with deadline := none, cycle := none } []
  | rested {e : CycleEnd ρ} {next : ρ} (hCycle : o.cycle.isSome = true) (hReturned : e.returned? = some next)
      (hPhase : o.phase ≠ .regenPending) :
      Move o (.ended e) { o with cycle := none, regenerator := some next, phase := .idle } e.report
  | followed {e : CycleEnd ρ} {next : ρ} (hCycle : o.cycle.isSome = true) (hReturned : e.returned? = some next)
      (hPhase : o.phase = .regenPending) :
      Move o (.ended e) { o with cycle := some next, regenerator := none, phase := .generating }
        (e.report ++ [.tell (Log.debug "Changes arrived during generation, regenerating"), .startCycle])
  | panicked (hCycle : o.cycle.isSome = true) :
      Move o (.ended .panic) { o with cycle := none, lost := true } (CycleEnd.panic : CycleEnd ρ).report

theorem onChange_of_rejected {o : Orchestrator ρ} {c : Change} (h : o.filter.accepts c = false) (now : Nat) :
    o.onChange now c = (o, [.tell (Log.debug ("Ignoring " ++ changeText c))]) := by
  simp [onChange, h]

theorem onChange_of_idle {o : Orchestrator ρ} {c : Change} (h : o.filter.accepts c = true)
    (hIdle : o.phase = .idle) (now : Nat) :
    o.onChange now c =
      ({ o with deadline := some (now + o.debounce) }, [.tell (Log.debug (changeText c))]) := by
  simp [onChange, h, hIdle]

theorem onChange_of_busy {o : Orchestrator ρ} {c : Change} (h : o.filter.accepts c = true)
    (hBusy : o.phase ≠ .idle) (now : Nat) :
    o.onChange now c = ({ o with phase := .regenPending }, [.tell (Log.debug (changeText c))]) := by
  cases hPhase : o.phase with
  | idle => exact absurd hPhase hBusy
  | generating => simp [onChange, h, hPhase]
  | regenPending => simp [onChange, h, hPhase]

theorem startCycle_of_held {o : Orchestrator ρ} {held : ρ} (h : o.regenerator = some held) :
    o.startCycle = ({ o with regenerator := none, phase := .generating, cycle := some held }, [.startCycle]) := by
  simp [startCycle, h]

theorem startCycle_of_away {o : Orchestrator ρ} (h : o.regenerator = none) :
    o.startCycle = ({ o with cycle := none }, []) := by
  simp [startCycle, h]

theorem afterCycle_of_pending {o : Orchestrator ρ} (hPhase : o.phase = .regenPending) (next : ρ) :
    o.afterCycle next =
      ({ o with cycle := some next, regenerator := none, phase := .generating },
        [.tell (Log.debug "Changes arrived during generation, regenerating"), .startCycle]) := by
  simp [afterCycle, hPhase, startCycle]

theorem afterCycle_of_not_pending {o : Orchestrator ρ} (hPhase : o.phase ≠ .regenPending) (next : ρ) :
    o.afterCycle next = ({ o with cycle := none, regenerator := some next, phase := .idle }, []) := by
  cases h : o.phase with
  | regenPending => exact absurd h hPhase
  | idle => simp [afterCycle, h]
  | generating => simp [afterCycle, h]

theorem onEnded_of_returned (o : Orchestrator ρ) {e : CycleEnd ρ} {next : ρ}
    (h : e.returned? = some next) :
    o.onEnded e = ((o.afterCycle next).1, e.report ++ (o.afterCycle next).2) := by
  cases e with
  | success value => cases h; rfl
  | failure value cause => cases h; rfl
  | panic => cases h

theorem move_onChange {o : Orchestrator ρ} (hOpen : o.isOpen = true) (now : Nat) (c : Change) :
    o.Move (.change now c) (o.onChange now c).1 (o.onChange now c).2 := by
  cases hAccepted : o.filter.accepts c with
  | false =>
    rw [onChange_of_rejected hAccepted]
    exact .ignored hOpen hAccepted
  | true =>
    by_cases hIdle : o.phase = .idle
    · rw [onChange_of_idle hAccepted hIdle]
      exact .armed hOpen hAccepted hIdle
    · rw [onChange_of_busy hAccepted hIdle]
      exact .noted hOpen hAccepted hIdle

theorem move_due {o : Orchestrator ρ} (hArmed : o.deadline.isSome = true) :
    o.Move .due { o with deadline := none }.startCycle.1 { o with deadline := none }.startCycle.2 := by
  obtain hHeld | ⟨held, hHeld⟩ := o.regenerator.eq_none_or_eq_some
  · rw [startCycle_of_away (o := { o with deadline := none }) hHeld]
    exact .missed hArmed hHeld
  · rw [startCycle_of_held (o := { o with deadline := none }) hHeld]
    exact .started hArmed hHeld

theorem move_onEnded {o : Orchestrator ρ} (hCycle : o.cycle.isSome = true) (e : CycleEnd ρ) :
    o.Move (.ended e) (o.onEnded e).1 (o.onEnded e).2 := by
  cases hReturned : e.returned? with
  | none =>
    rw [CycleEnd.returned?_eq_none_iff] at hReturned
    subst e
    exact .panicked hCycle
  | some next =>
    rw [onEnded_of_returned o hReturned]
    by_cases hPhase : o.phase = .regenPending
    · rw [afterCycle_of_pending hPhase]
      exact .followed hCycle hReturned hPhase
    · rw [afterCycle_of_not_pending hPhase, List.append_nil]
      exact .rested hCycle hReturned hPhase

theorem move_of_step {o next : Orchestrator ρ} {s : Signal ρ} {effects : List Effect}
    (h : o.step s = some (next, effects)) : o.lost = false ∧ o.Move s next effects := by
  unfold step at h
  split at h
  · cases h
  · rename_i hLost
    refine ⟨by simpa using hLost, ?_⟩
    cases s with
    | change now c =>
      obtain ⟨hOpen, hNext⟩ := Option.ite_none_right_eq_some.mp h
      obtain ⟨rfl, rfl⟩ := Prod.mk.inj (Option.some.inj hNext)
      exact move_onChange hOpen now c
    | closed =>
      obtain ⟨hOpen, hNext⟩ := Option.ite_none_right_eq_some.mp h
      cases hNext
      exact .closed hOpen
    | due =>
      obtain ⟨hArmed, hNext⟩ := Option.ite_none_right_eq_some.mp h
      obtain ⟨rfl, rfl⟩ := Prod.mk.inj (Option.some.inj hNext)
      exact move_due hArmed
    | ended e =>
      obtain ⟨hCycle, hNext⟩ := Option.ite_none_right_eq_some.mp h
      obtain ⟨rfl, rfl⟩ := Prod.mk.inj (Option.some.inj hNext)
      exact move_onEnded hCycle e

/-- A step is a move of an orchestrator that no panic has ended. -/
theorem step_eq_some_iff {o next : Orchestrator ρ} {s : Signal ρ} {effects : List Effect} :
    o.step s = some (next, effects) ↔ o.lost = false ∧ o.Move s next effects := by
  constructor
  · exact move_of_step
  · rintro ⟨hLost, hMove⟩
    cases hMove with
    | ignored hOpen hRejected => simp [step, hLost, hOpen, onChange_of_rejected hRejected]
    | armed hOpen hAccepted hIdle => simp [step, hLost, hOpen, onChange_of_idle hAccepted hIdle]
    | noted hOpen hAccepted hBusy => simp [step, hLost, hOpen, onChange_of_busy hAccepted hBusy]
    | closed hOpen => simp [step, hLost, hOpen]
    | started hArmed hHeld => simp [step, hLost, hArmed, startCycle, hHeld]
    | missed hArmed hHeld => simp [step, hLost, hArmed, startCycle, hHeld]
    | rested hCycle hReturned hPhase =>
      simp [step, hLost, hCycle, onEnded_of_returned o hReturned, afterCycle_of_not_pending hPhase]
    | followed hCycle hReturned hPhase =>
      simp [step, hLost, hCycle, onEnded_of_returned o hReturned, afterCycle_of_pending hPhase]
    | panicked hCycle => simp [step, hLost, hCycle, onEnded, CycleEnd.report]

theorem run_cons_eq_some_iff {o last : Orchestrator ρ} {s : Signal ρ} {rest : List (Signal ρ)}
    {effects : List Effect} :
    o.run (s :: rest) = some (last, effects) ↔
      ∃ next first more, o.step s = some (next, first) ∧ next.run rest = some (last, more) ∧
        effects = first ++ more := by
  rw [run]
  constructor
  · intro h
    obtain ⟨⟨next, first⟩, hStep, h⟩ := Option.bind_eq_some_iff.mp h
    obtain ⟨⟨final, more⟩, hRest, h⟩ := Option.bind_eq_some_iff.mp h
    cases h
    exact ⟨next, first, more, hStep, hRest, rfl⟩
  · rintro ⟨next, first, more, hStep, hRest, rfl⟩
    simp [hStep, hRest]

theorem run_append_eq_some_iff {o last : Orchestrator ρ} {before after : List (Signal ρ)}
    {effects : List Effect} :
    o.run (before ++ after) = some (last, effects) ↔
      ∃ middle first more, o.run before = some (middle, first) ∧ middle.run after = some (last, more) ∧
        effects = first ++ more := by
  induction before generalizing o effects with
  | nil =>
    constructor
    · intro h
      exact ⟨o, [], effects, rfl, h, rfl⟩
    · rintro ⟨middle, first, more, hBefore, hAfter, rfl⟩
      cases hBefore
      exact hAfter
  | cons s rest ih =>
    rw [List.cons_append, run_cons_eq_some_iff]
    constructor
    · rintro ⟨next, first, more, hStep, hRest, rfl⟩
      obtain ⟨middle, head, tail, hHead, hTail, rfl⟩ := ih.mp hRest
      exact ⟨middle, first ++ head, tail, run_cons_eq_some_iff.mpr ⟨next, first, head, hStep, hHead, rfl⟩,
        hTail, (List.append_assoc ..).symm⟩
    · rintro ⟨middle, first, tail, hBefore, hAfter, rfl⟩
      obtain ⟨next, head, more, hStep, hMore, rfl⟩ := run_cons_eq_some_iff.mp hBefore
      exact ⟨next, head, more ++ tail, hStep, ih.mpr ⟨middle, more, tail, hMore, hAfter, rfl⟩,
        List.append_assoc ..⟩

/-- What each step keeps, a run keeps. -/
theorem run_preserves (Inv : Orchestrator ρ → Prop) {signals : List (Signal ρ)}
    (hStep : ∀ o next s effects, s ∈ signals → Inv o → o.step s = some (next, effects) → Inv next)
    {o last : Orchestrator ρ} {effects : List Effect} (hRun : o.run signals = some (last, effects))
    (h : Inv o) : Inv last := by
  induction signals generalizing o effects with
  | nil =>
    cases hRun
    exact h
  | cons s rest ih =>
    obtain ⟨next, first, more, hFirst, hRest, rfl⟩ := run_cons_eq_some_iff.mp hRun
    exact ih (fun o next s effects hs => hStep o next s effects (List.mem_cons_of_mem _ hs)) hRest
      (hStep o next s first List.mem_cons_self h hFirst)

theorem run_concat {o reached next : Orchestrator ρ} {before : List (Signal ρ)} {s : Signal ρ}
    {earlier effects : List Effect} (hRun : o.run before = some (reached, earlier))
    (hStep : reached.step s = some (next, effects)) : o.run (before ++ [s]) = some (next, earlier ++ effects) := by
  refine run_append_eq_some_iff.mpr ⟨reached, earlier, effects, hRun, ?_, rfl⟩
  exact run_cons_eq_some_iff.mpr ⟨next, effects, [], hStep, rfl, (List.append_nil effects).symm⟩

/-- What holds at the start, and of a run that is one step longer, holds of a run with its signals and
its effects. -/
theorem run_induction {o : Orchestrator ρ} (Holds : List (Signal ρ) → Orchestrator ρ → List Effect → Prop)
    (hStart : Holds [] o [])
    (hStep : ∀ before reached earlier s next effects, o.run before = some (reached, earlier) →
      reached.step s = some (next, effects) → Holds before reached earlier →
        Holds (before ++ [s]) next (earlier ++ effects))
    {signals : List (Signal ρ)} {last : Orchestrator ρ} {effects : List Effect}
    (hRun : o.run signals = some (last, effects)) : Holds signals last effects := by
  have hAfter : ∀ (after before : List (Signal ρ)) (reached : Orchestrator ρ) (earlier more : List Effect),
      o.run before = some (reached, earlier) → reached.run after = some (last, more) →
        Holds before reached earlier → Holds (before ++ after) last (earlier ++ more) := by
    intro after
    induction after with
    | nil =>
      intro before reached earlier more _ hNil hBefore
      cases hNil
      rwa [List.append_nil, List.append_nil]
    | cons s rest ih =>
      intro before reached earlier more hRunBefore hRest hBefore
      obtain ⟨next, told, later, hNext, hLater, rfl⟩ := run_cons_eq_some_iff.mp hRest
      have hLonger := ih (before ++ [s]) next (earlier ++ told) later (run_concat hRunBefore hNext) hLater
        (hStep before reached earlier s next told hRunBefore hNext hBefore)
      rwa [← List.append_cons, List.append_assoc] at hLonger
  exact hAfter signals [] o [] effects rfl hRun hStart

theorem step_filter {o next : Orchestrator ρ} {s : Signal ρ} {effects : List Effect}
    (h : o.step s = some (next, effects)) : next.filter = o.filter := by
  obtain ⟨_, hMove⟩ := step_eq_some_iff.mp h
  cases hMove <;> rfl

theorem run_filter {o last : Orchestrator ρ} {signals : List (Signal ρ)} {effects : List Effect}
    (h : o.run signals = some (last, effects)) : last.filter = o.filter :=
  run_preserves (fun reached => reached.filter = o.filter)
    (fun _ _ _ _ _ hFilter hStep => (step_filter hStep).trans hFilter) h rfl

theorem step_isOpen_iff {o next : Orchestrator ρ} {s : Signal ρ} {effects : List Effect}
    (h : o.step s = some (next, effects)) : next.isOpen = true ↔ o.isOpen = true ∧ s ≠ .closed := by
  obtain ⟨_, hMove⟩ := step_eq_some_iff.mp h
  cases hMove <;> simp

theorem step_lost_iff {o next : Orchestrator ρ} {s : Signal ρ} {effects : List Effect}
    (h : o.step s = some (next, effects)) : next.lost = true ↔ s = .ended .panic := by
  obtain ⟨hLost, hMove⟩ := step_eq_some_iff.mp h
  cases hMove with
  | rested _ hReturned => simp [hLost, CycleEnd.ne_panic_of_returned hReturned]
  | followed _ hReturned => simp [hLost, CycleEnd.ne_panic_of_returned hReturned]
  | panicked => simp
  | _ => simp [hLost]

theorem run_isOpen_iff {o last : Orchestrator ρ} {signals : List (Signal ρ)} {effects : List Effect}
    (h : o.run signals = some (last, effects)) : last.isOpen = true ↔ o.isOpen = true ∧ .closed ∉ signals := by
  refine run_induction (fun signals last _ => last.isOpen = true ↔ o.isOpen = true ∧ .closed ∉ signals)
    (by simp) ?_ h
  intro before reached _ s next _ _ hStep hReached
  rw [step_isOpen_iff hStep, hReached, List.mem_append, List.mem_singleton, not_or, and_assoc, ne_comm]

theorem run_of_lost {o last : Orchestrator ρ} {signals : List (Signal ρ)} {effects : List Effect}
    (hLost : o.lost = true) (h : o.run signals = some (last, effects)) :
    signals = [] ∧ last = o ∧ effects = [] := by
  cases signals with
  | nil =>
    cases h
    exact ⟨rfl, rfl, rfl⟩
  | cons s rest =>
    obtain ⟨_, _, _, hStep, -, -⟩ := run_cons_eq_some_iff.mp h
    rw [(step_eq_some_iff.mp hStep).1] at hLost
    cases hLost

theorem run_lost_iff {o last : Orchestrator ρ} {signals : List (Signal ρ)} {effects : List Effect}
    (h : o.run signals = some (last, effects)) :
    last.lost = true ↔ o.lost = true ∨ .ended .panic ∈ signals := by
  refine run_induction (fun signals last _ => last.lost = true ↔ o.lost = true ∨ .ended .panic ∈ signals)
    (by simp) ?_ h
  intro before reached _ s next _ _ hStep hReached
  have hBefore : ¬(o.lost = true ∨ .ended .panic ∈ before) := by
    rw [← hReached, (step_eq_some_iff.mp hStep).1]
    nofun
  rw [step_lost_iff hStep, List.mem_append, List.mem_singleton, ← or_assoc, or_iff_right hBefore, eq_comm]

end Orchestrator

end ClientRegistry.Watch
