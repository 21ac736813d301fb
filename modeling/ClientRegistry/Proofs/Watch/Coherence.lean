import ClientRegistry.Proofs.Watch.Moves

/-!
# The variables of the orchestrator agree

Phase, deadline, cycle and regenerator are kept apart and changed by different moves. They agree
after every run without a panic, so a cycle that is due always finds the regenerator, and no
regenerator is lost or used twice: those held at first or handed back are, in order, those that
cycles have taken and the one still held.
-/

set_option autoImplicit false

namespace ClientRegistry.Watch

variable {ρ : Type}

def Signal.returned? : Signal ρ → Option ρ
  | .ended e => e.returned?
  | _ => none

def Signal.returned (signals : List (Signal ρ)) : List ρ := signals.filterMap Signal.returned?

theorem Signal.returned_cons (s : Signal ρ) (rest : List (Signal ρ)) :
    Signal.returned (s :: rest) = s.returned?.toList ++ Signal.returned rest := by
  cases h : s.returned? <;> simp [Signal.returned, h]

namespace Orchestrator

def takenBy (next : Orchestrator ρ) (effects : List Effect) : List ρ :=
  if .startCycle ∈ effects then next.cycle.toList else []

def taken (o : Orchestrator ρ) : List (Signal ρ) → List ρ
  | [] => []
  | s :: rest =>
    match o.step s with
    | some (next, effects) => next.takenBy effects ++ next.taken rest
    | none => []

theorem count_startCycle_of_step {o next : Orchestrator ρ} {s : Signal ρ} {effects : List Effect}
    (h : o.step s = some (next, effects)) : effects.count .startCycle = (next.takenBy effects).length := by
  obtain ⟨-, hMove⟩ := step_eq_some_iff.mp h
  cases hMove with
  | rested =>
    simp [takenBy, CycleEnd.startCycle_not_mem_report,
      List.count_eq_zero_of_not_mem (CycleEnd.startCycle_not_mem_report _)]
  | followed =>
    simp [takenBy, List.count_eq_zero_of_not_mem (CycleEnd.startCycle_not_mem_report _)]
  | _ => simp [takenBy, CycleEnd.report]

theorem count_startCycle_of_run {o last : Orchestrator ρ} {signals : List (Signal ρ)} {effects : List Effect}
    (h : o.run signals = some (last, effects)) : effects.count .startCycle = (o.taken signals).length := by
  induction signals generalizing o effects with
  | nil =>
    cases h
    rfl
  | cons s rest ih =>
    obtain ⟨next, first, more, hStep, hRest, rfl⟩ := run_cons_eq_some_iff.mp h
    simp only [taken, hStep, List.count_append, List.length_append]
    rw [count_startCycle_of_step hStep, ih hRest]

/-- What the variables of an orchestrator say of each other while no panic has ended it. -/
structure Coherent (o : Orchestrator ρ) : Prop where
  kept : o.lost = false
  idle_iff : o.phase = .idle ↔ o.cycle = none
  held_iff : o.regenerator.isSome = true ↔ o.cycle = none
  armed : o.deadline.isSome = true → o.phase = .idle

namespace Coherent

variable {o : Orchestrator ρ}

theorem start (filter : Filter) (debounce : Nat) (regenerator : ρ) :
    Coherent (Orchestrator.start filter debounce regenerator) :=
  ⟨rfl, by simp [Orchestrator.start], by simp [Orchestrator.start], by simp [Orchestrator.start]⟩

theorem held_of_armed (h : Coherent o) (hArmed : o.deadline.isSome = true) :
    ∃ held, o.regenerator = some held :=
  Option.isSome_iff_exists.mp (h.held_iff.mpr (h.idle_iff.mp (h.armed hArmed)))

theorem not_held_of_cycle (h : Coherent o) (hCycle : o.cycle.isSome = true) : o.regenerator = none := by
  rw [← Option.not_isSome_iff_eq_none, h.held_iff]
  intro hNone
  simp [hNone] at hCycle

theorem deadline_eq_none_of_cycle (h : Coherent o) (hCycle : o.cycle.isSome = true) : o.deadline = none := by
  rw [← Option.not_isSome_iff_eq_none]
  intro hArmed
  have hNone := h.idle_iff.mp (h.armed hArmed)
  simp [hNone] at hCycle

/-- Any signal but a panic leaves a coherent orchestrator coherent. -/
theorem step {next : Orchestrator ρ} {s : Signal ρ} {effects : List Effect} (h : Coherent o)
    (hStep : o.step s = some (next, effects)) (hPanic : s ≠ .ended .panic) : Coherent next := by
  obtain ⟨hLost, hMove⟩ := step_eq_some_iff.mp hStep
  cases hMove with
  | ignored => exact h
  | armed _ _ hIdle => exact ⟨hLost, h.idle_iff, h.held_iff, fun _ => hIdle⟩
  | noted _ _ hBusy =>
    have hCycle : o.cycle ≠ none := fun hNone => hBusy (h.idle_iff.mpr hNone)
    refine ⟨hLost, by simpa using hCycle, h.held_iff, fun hArmed => absurd (h.armed hArmed) hBusy⟩
  | closed => exact ⟨hLost, h.idle_iff, h.held_iff, h.armed⟩
  | started => exact ⟨hLost, by simp, by simp, by simp⟩
  | missed hArmed hHeld =>
    obtain ⟨held, hSome⟩ := h.held_of_armed hArmed
    rw [hHeld] at hSome
    cases hSome
  | rested hCycle =>
    exact ⟨hLost, by simp, by simp, fun _ => rfl⟩
  | followed hCycle =>
    refine ⟨hLost, by simp, by simp, fun hArmed => ?_⟩
    simp [h.deadline_eq_none_of_cycle hCycle] at hArmed
  | panicked => exact absurd rfl hPanic

theorem run {last : Orchestrator ρ} {signals : List (Signal ρ)} {effects : List Effect} (h : Coherent o)
    (hRun : o.run signals = some (last, effects)) (hPanic : Signal.ended .panic ∉ signals) : Coherent last :=
  run_preserves Coherent
    (fun _ _ _ _ hMem hCoherent hStep => hCoherent.step hStep fun hEq => hPanic (hEq ▸ hMem)) hRun h

/-- A step gives to a cycle, or keeps, just what was held and what is handed back to it. -/
theorem step_ledger {next : Orchestrator ρ} {s : Signal ρ} {effects : List Effect} (h : Coherent o)
    (hStep : o.step s = some (next, effects)) :
    o.regenerator.toList ++ s.returned?.toList = next.takenBy effects ++ next.regenerator.toList := by
  obtain ⟨-, hMove⟩ := step_eq_some_iff.mp hStep
  cases hMove with
  | ignored => simp [takenBy, Signal.returned?]
  | armed => simp [takenBy, Signal.returned?]
  | noted => simp [takenBy, Signal.returned?]
  | closed => simp [takenBy, Signal.returned?]
  | started _ hHeld => simp [takenBy, Signal.returned?, hHeld]
  | missed _ hHeld => simp [takenBy, Signal.returned?, hHeld]
  | rested hCycle hReturned =>
    simp [takenBy, Signal.returned?, hReturned, h.not_held_of_cycle hCycle, CycleEnd.startCycle_not_mem_report]
  | followed hCycle hReturned => simp [takenBy, Signal.returned?, hReturned, h.not_held_of_cycle hCycle]
  | panicked hCycle => simp [takenBy, Signal.returned?, CycleEnd.returned?, CycleEnd.report, h.not_held_of_cycle hCycle]

theorem run_ledger {last : Orchestrator ρ} {signals : List (Signal ρ)} {effects : List Effect}
    (h : Coherent o) (hRun : o.run signals = some (last, effects)) (hPanic : Signal.ended .panic ∉ signals) :
    o.regenerator.toList ++ Signal.returned signals = o.taken signals ++ last.regenerator.toList := by
  induction signals generalizing o effects with
  | nil =>
    cases hRun
    simp [Signal.returned, taken]
  | cons s rest ih =>
    obtain ⟨next, first, more, hStep, hRest, rfl⟩ := run_cons_eq_some_iff.mp hRun
    have hNext : Coherent next := h.step hStep fun hEq => hPanic (hEq ▸ List.mem_cons_self)
    have hTaken : o.taken (s :: rest) = next.takenBy first ++ next.taken rest := by simp [taken, hStep]
    calc
      o.regenerator.toList ++ Signal.returned (s :: rest)
        = o.regenerator.toList ++ s.returned?.toList ++ Signal.returned rest := by
          rw [Signal.returned_cons, List.append_assoc]
      _ = next.takenBy first ++ (next.regenerator.toList ++ Signal.returned rest) := by
          rw [h.step_ledger hStep, List.append_assoc]
      _ = next.takenBy first ++ (next.taken rest ++ last.regenerator.toList) := by
          rw [ih hNext hRest fun hMem => hPanic (List.mem_cons_of_mem _ hMem)]
      _ = o.taken (s :: rest) ++ last.regenerator.toList := by rw [hTaken, List.append_assoc]

theorem length_regenerator_add (h : Coherent o) :
    o.regenerator.toList.length + o.cycle.toList.length = 1 := by
  cases hCycle : o.cycle with
  | none =>
    obtain ⟨held, hHeld⟩ := Option.isSome_iff_exists.mp (h.held_iff.mpr hCycle)
    simp [hHeld]
  | some value => simp [h.not_held_of_cycle (o := o) (by simp [hCycle])]

theorem due_starts (h : Coherent o) (hArmed : o.deadline.isSome = true) :
    ∃ held, o.regenerator = some held ∧ o.step .due =
      some ({ o with deadline := none, regenerator := none, phase := .generating, cycle := some held },
        [.startCycle]) := by
  obtain ⟨held, hHeld⟩ := h.held_of_armed hArmed
  exact ⟨held, hHeld, step_eq_some_iff.mpr ⟨h.kept, .started hArmed hHeld⟩⟩

theorem pending_follows (h : Coherent o) (hPhase : o.phase = .regenPending) {e : CycleEnd ρ} {next : ρ}
    (hReturned : e.returned? = some next) :
    o.step (.ended e) =
      some ({ o with cycle := some next, regenerator := none, phase := .generating },
        e.report ++ [.tell (Log.debug "Changes arrived during generation, regenerating"), .startCycle]) := by
  have hCycle : o.cycle.isSome = true := by
    rw [← Option.ne_none_iff_isSome]
    intro hNone
    rw [h.idle_iff.mpr hNone] at hPhase
    cases hPhase
  exact step_eq_some_iff.mpr ⟨h.kept, .followed hCycle hReturned hPhase⟩

theorem isDone_iff (h : Coherent o) :
    o.isDone = true ↔ o.isOpen = false ∧ o.deadline = none ∧ o.cycle = none := by
  simp [isDone, h.kept, and_assoc]

theorem result_eq_some_of_isDone (h : Coherent o) (hDone : o.isDone = true) :
    ∃ last, o.result? = some last ∧ o.regenerator = some last := by
  obtain ⟨-, -, hCycle⟩ := h.isDone_iff.mp hDone
  obtain ⟨last, hHeld⟩ := Option.isSome_iff_exists.mp (h.held_iff.mpr hCycle)
  exact ⟨last, by simp [result?, h.kept, hHeld], hHeld⟩

end Coherent

/-- If each regenerator handed back has seen one call more than the one its cycle has taken, the
last one has seen as many calls more than the first as cycles have taken one. -/
theorem calls_of_ledger {seen : ρ → Nat} {first last : ρ} {taken returned : List ρ}
    (hLedger : first :: returned = taken ++ [last])
    (hCalls : ∀ p ∈ taken.zip returned, seen p.2 = seen p.1 + 1) :
    seen last = seen first + taken.length := by
  induction taken generalizing first returned with
  | nil =>
    have hEq : first = last := (List.cons.inj hLedger).1
    rw [hEq]
    rfl
  | cons t rest ih =>
    obtain ⟨rfl, hRest⟩ := List.cons.inj hLedger
    cases returned with
    | nil => simp at hRest
    | cons r others =>
      have hFirst : seen r = seen first + 1 := hCalls (first, r) List.mem_cons_self
      have hOthers : ∀ p ∈ rest.zip others, seen p.2 = seen p.1 + 1 := by
        intro p hp
        exact hCalls p (List.mem_cons_of_mem _ hp)
      rw [ih hRest hOthers, hFirst, List.length_cons]
      omega

/-- What holds where an orchestrator that was given the regenerator `first` has come to `o`. -/
structure CyclesInTurn (first : ρ) (begun : Orchestrator ρ) (signals : List (Signal ρ)) (o : Orchestrator ρ)
    (effects : List Effect) : Prop where
  coherent : Coherent o
  /-- One cycle more has started than has ended where one runs, and none more where none does. -/
  inFlight : effects.count .startCycle = (Signal.returned signals).length + o.cycle.toList.length
  /-- A deadline that passes finds the regenerator and starts a cycle with it. -/
  onDue : o.deadline.isSome = true → ∃ held, o.regenerator = some held ∧ o.step .due =
    some ({ o with deadline := none, regenerator := none, phase := .generating, cycle := some held },
      [.startCycle])
  /-- The end of a cycle with changes waiting starts the next one with the regenerator it hands back. -/
  onPending : o.phase = .regenPending → ∀ (e : CycleEnd ρ) (next : ρ), e.returned? = some next →
    o.step (.ended e) =
      some ({ o with cycle := some next, regenerator := none, phase := .generating },
        e.report ++ [.tell (Log.debug "Changes arrived during generation, regenerating"), .startCycle])
  /-- The first cycle takes the regenerator given at the start, each later one the regenerator that
  the cycle before it has handed back, and the last one handed back is held. -/
  handedOn : first :: Signal.returned signals = begun.taken signals ++ o.regenerator.toList
  started : effects.count .startCycle = (begun.taken signals).length
  /-- If each cycle makes one call, the run ends with a regenerator that has seen as many calls as
  cycles have started. -/
  calls : o.isDone = true → ∃ last, o.result? = some last ∧ ∀ seen : ρ → Nat,
    (∀ p ∈ (begun.taken signals).zip (Signal.returned signals), seen p.2 = seen p.1 + 1) →
      seen last = seen first + effects.count .startCycle

/-- After every run without a panic the variables agree, every cycle that is due or pending starts,
and the regenerator goes from cycle to cycle. -/
theorem cyclesInTurn_of_run {filter : Filter} {debounce : Nat} {first : ρ} {signals : List (Signal ρ)}
    {o : Orchestrator ρ} {effects : List Effect}
    (hRun : (start filter debounce first).run signals = some (o, effects))
    (hPanic : Signal.ended .panic ∉ signals) :
    CyclesInTurn first (start filter debounce first) signals o effects := by
  have hStart : Coherent (start filter debounce first) := Coherent.start filter debounce first
  have hCoherent : Coherent o := hStart.run hRun hPanic
  have hStarted := count_startCycle_of_run hRun
  have hLedger : first :: Signal.returned signals =
      (start filter debounce first).taken signals ++ o.regenerator.toList :=
    hStart.run_ledger hRun hPanic
  refine ⟨hCoherent, ?_, hCoherent.due_starts, fun hPhase _ _ => hCoherent.pending_follows hPhase, hLedger,
    hStarted, ?_⟩
  · have hLength := congrArg List.length hLedger
    have hOne := hCoherent.length_regenerator_add
    rw [List.length_cons, List.length_append] at hLength
    omega
  · intro hDone
    obtain ⟨last, hResult, hHeld⟩ := hCoherent.result_eq_some_of_isDone hDone
    refine ⟨last, hResult, fun seen hCalls => ?_⟩
    rw [hStarted]
    rw [hHeld] at hLedger
    exact calls_of_ledger hLedger hCalls

def counting : Orchestrator Nat := start ⟨"/p", ["gen", "/p/gen"]⟩ 100 0

def followedUp : List (Signal Nat) :=
  [.change 0 ⟨.created, "a.proto"⟩, .due, .change 150 ⟨.modified, "b.proto"⟩, .ended (.success 1), .closed,
    .ended (.failure 2 "no schema")]

theorem cyclesInTurn_followedUp :
    ∃ o effects, counting.run followedUp = some (o, effects) ∧ Signal.ended .panic ∉ followedUp ∧
      CyclesInTurn 0 counting followedUp o effects :=
  ⟨_, _, rfl, by decide, cyclesInTurn_of_run rfl (by decide)⟩

end Orchestrator

end ClientRegistry.Watch
