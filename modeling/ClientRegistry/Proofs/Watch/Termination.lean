import ClientRegistry.Proofs.Watch.Causes

/-!
# The loop ends

Each step uses up some of what is left to do: a change from the channel, its close, an armed deadline, a
running cycle or the follow-up that waits for its end. So there are at most as many steps as the changes ask
for. While there is something left it can be done, and so a run that nothing can follow has ended.
-/

set_option autoImplicit false

namespace ClientRegistry.Watch

variable {ρ : Type}

namespace Signal

def change? : Signal ρ → Option Change
  | .change _ c => some c
  | _ => none

def received? : Signal ρ → Option (Option Change)
  | .change _ c => some (some c)
  | .closed => some none
  | _ => none

end Signal

/-- What the signals take from the channel are these changes and then the close, as far as they have come. -/
def Receives (stream : List Change) (signals : List (Signal ρ)) : Prop :=
  signals.filterMap Signal.received? <+: stream.map some ++ [none]

theorem changes_prefix_of_receives {stream : List Change} {signals : List (Signal ρ)} (h : Receives stream signals) :
    signals.filterMap Signal.change? <+: stream := by
  have hChanges := List.IsPrefix.filterMap (fun x : Option Change => x) h
  have hSame : (fun s : Signal ρ => s.received?.bind fun x => x) = Signal.change? := by
    funext s
    cases s <;> rfl
  rw [List.filterMap_filterMap, hSame, List.filterMap_append, List.filterMap_map] at hChanges
  have hStream : stream.filterMap ((fun x => x) ∘ some) = stream := List.filterMap_some
  rw [hStream] at hChanges
  simpa using hChanges

theorem Receives.concat {stream : List Change} {signals : List (Signal ρ)} {s : Signal ρ}
    (h : Receives stream signals) (hInner : s.received? = none) : Receives stream (signals ++ [s]) := by
  rwa [Receives, List.filterMap_append, List.filterMap_cons_none hInner, List.filterMap_nil, List.append_nil]

namespace Orchestrator

variable {o next last : Orchestrator ρ} {s : Signal ρ} {signals : List (Signal ρ)} {effects : List Effect}

/-! ### How many steps there can be -/

/-- How many steps are left without another change: one for the close, one for the cycle that runs and one for
the cycle that follows it, and two for the cycle of a deadline. -/
def stepsLeft (o : Orchestrator ρ) : Nat :=
  (if o.isOpen then 1 else 0) + (if o.deadline.isSome then 2 else 0) + (if o.cycle.isSome then 1 else 0) +
    if o.phase = .regenPending then 1 else 0

theorem stepsLeft_of_step (hStep : o.step s = some (next, effects)) :
    1 + next.stepsLeft ≤ o.stepsLeft + (s.change?.toList.length + 2 * s.change?.toList.countP o.filter.accepts) := by
  obtain ⟨-, hMove⟩ := step_eq_some_iff.mp hStep
  cases hMove with
  | ignored =>
    simp only [Signal.change?, Option.toList_some, List.length_singleton]
    omega
  | armed _ hAccepted | noted _ hAccepted =>
    simp only [stepsLeft, Signal.change?, Option.toList_some, List.length_singleton, List.countP_singleton, hAccepted]
    simp
    omega
  | closed hOpen =>
    simp [stepsLeft, Signal.change?, hOpen]
    omega
  | started hArmed | missed hArmed =>
    simp [stepsLeft, Signal.change?, hArmed]
    omega
  | rested hCycle | panicked hCycle =>
    simp [stepsLeft, Signal.change?, hCycle]
    omega
  | followed hCycle _ hPhase =>
    simp [stepsLeft, Signal.change?, hCycle, hPhase]
    omega

theorem length_add_stepsLeft_le (hRun : o.run signals = some (last, effects)) :
    signals.length + last.stepsLeft ≤ o.stepsLeft + ((signals.filterMap Signal.change?).length +
      2 * (signals.filterMap Signal.change?).countP o.filter.accepts) := by
  refine run_induction (fun signals last _ => signals.length + last.stepsLeft ≤
    o.stepsLeft + ((signals.filterMap Signal.change?).length +
      2 * (signals.filterMap Signal.change?).countP o.filter.accepts)) (by simp) ?_ hRun
  intro before reached _ s next _ hBefore hStep hLe
  have hNext := stepsLeft_of_step hStep
  have hChange : [s].filterMap Signal.change? = s.change?.toList := by cases h : s.change? <;> simp [h]
  rw [run_filter hBefore] at hNext
  rw [List.filterMap_append, hChange, List.length_append, List.length_append, List.countP_append,
    List.length_singleton]
  omega

/-! ### That there is one while there is something left -/

def awaits (o : Orchestrator ρ) : Signal ρ → Bool
  | .change _ _ => o.isOpen
  | .closed => o.isOpen
  | .due => o.deadline.isSome
  | .ended _ => o.cycle.isSome

theorem step_isSome_iff : (o.step s).isSome = true ↔ o.lost = false ∧ o.awaits s = true := by
  cases hLost : o.lost <;> cases s <;> simp [step, awaits, hLost]

theorem kept_of_not_done (h : o.isDone = false) : o.lost = false := by
  simp only [isDone, Bool.or_eq_false_iff] at h
  exact h.1

/-- A run has ended where no signal can come any more. -/
theorem isDone_iff_forall_step : o.isDone = true ↔ ∀ s, o.step s = none := by
  have hStuck (s : Signal ρ) : o.step s = none ↔ (o.lost = false → o.awaits s = false) := by
    rw [← Option.not_isSome_iff_eq_none, step_isSome_iff, not_and, Bool.not_eq_true]
  simp only [hStuck]
  constructor
  · intro hDone s hLost
    simp only [isDone, hLost, Bool.false_or, Bool.and_eq_true, Bool.not_eq_true', Option.isNone_iff_eq_none] at hDone
    obtain ⟨⟨hClosed, hDeadline⟩, hCycle⟩ := hDone
    cases s <;> simp [awaits, hClosed, hDeadline, hCycle]
  · intro hNone
    cases hLost : o.lost with
    | true => simp [isDone, hLost]
    | false =>
      have hClosed : o.isOpen = false := hNone .closed hLost
      have hDeadline : o.deadline.isSome = false := hNone .due hLost
      have hCycle : o.cycle.isSome = false := hNone (.ended .panic) hLost
      simp_all [isDone]

theorem receives_next {stream : List Change} (hRun : o.run signals = some (last, effects))
    (hReceives : Receives stream signals) (hOpen : last.isOpen = true) :
    ∃ s : Signal ρ, Receives stream (signals ++ [s]) ∧ last.awaits s = true := by
  obtain ⟨rest, hRest⟩ := hReceives
  cases rest with
  | nil =>
    have hClosed : (none : Option Change) ∈ signals.filterMap Signal.received? := by
      rw [List.append_nil] at hRest
      rw [hRest]
      simp
    obtain ⟨s, hs, hReceived⟩ := List.mem_filterMap.mp hClosed
    have hIsClosed : s = .closed := by cases s <;> simp_all [Signal.received?]
    exact absurd (hIsClosed ▸ hs) ((run_isOpen_iff hRun).mp hOpen).2
  | cons x rest =>
    cases x with
    | none => exact ⟨.closed, ⟨rest, by simp [Signal.received?, ← hRest]⟩, hOpen⟩
    | some c => exact ⟨.change 0 c, ⟨rest, by simp [Signal.received?, ← hRest]⟩, hOpen⟩

theorem exists_awaits_of_not_done {stream : List Change} (hRun : o.run signals = some (last, effects))
    (hReceives : Receives stream signals) (hDone : last.isDone = false) :
    ∃ s : Signal ρ, Receives stream (signals ++ [s]) ∧ last.awaits s = true := by
  by_cases hOpen : last.isOpen = true
  · exact receives_next hRun hReceives hOpen
  by_cases hArmed : last.deadline.isSome = true
  · exact ⟨.due, hReceives.concat rfl, hArmed⟩
  by_cases hCycle : last.cycle.isSome = true
  · exact ⟨.ended .panic, hReceives.concat rfl, hCycle⟩
  · simp_all [isDone]

/-! ### After the close and at the end -/

theorem countP_counts_of_closed (f : Filter) (hClosed : o.isOpen = false)
    (hRun : o.run signals = some (last, effects)) : signals.countP (Signal.counts f) = 0 := by
  rw [List.countP_eq_zero]
  intro s hs hCounts
  obtain ⟨before, after, rfl⟩ := List.append_of_mem hs
  obtain ⟨reached, _, next, _, hBefore, hStep, -⟩ := exists_step_of_run hRun
  have hAwaits := (step_isSome_iff.mp (by rw [hStep]; rfl)).2
  cases s with
  | change now c =>
    have hStillOpen := (run_isOpen_iff hBefore).mp hAwaits
    rw [hClosed] at hStillOpen
    cases hStillOpen.1
  | _ => cases hCounts

/-- After the close only what is owed is paid, and that is one cycle at most. -/
theorem count_startCycle_of_closed (h : o.lost = false → Coherent o) (hClosed : o.isOpen = false)
    (hRun : o.run signals = some (last, effects)) : effects.count .startCycle ≤ 1 := by
  cases hLost : o.lost with
  | true =>
    obtain ⟨-, -, rfl⟩ := run_of_lost hLost hRun
    simp
  | false =>
    have hPaid := count_startCycle_add_owes_of_run (h hLost) hRun
    rw [countP_counts_of_closed o.filter hClosed hRun] at hPaid
    have hOne : (if o.Owes then 1 else 0) ≤ 1 := by split <;> omega
    omega

theorem nothing_left_of_lost (h : Coherent o) (hRun : o.run signals = some (last, effects))
    (hLost : last.lost = true) : last.deadline = none ∧ last.cycle = none := by
  refine run_induction (fun _ last _ => last.lost = true → last.deadline = none ∧ last.cycle = none) ?_ ?_ hRun hLost
  · intro hStart
    cases h.kept.symm.trans hStart
  · intro before reached _ s next _ hBefore hStep _ hNext
    have hReached := h.of_run_step hBefore hStep
    rw [step_lost_iff hStep] at hNext
    subst hNext
    obtain ⟨-, hMove⟩ := step_eq_some_iff.mp hStep
    cases hMove with
    | rested _ hReturned => cases hReturned
    | followed _ hReturned => cases hReturned
    | panicked hCycle => exact ⟨hReached.deadline_eq_none_of_cycle hCycle, rfl⟩

theorem nothing_left_of_isDone (h : Coherent o) (hRun : o.run signals = some (last, effects))
    (hDone : last.isDone = true) : last.deadline = none ∧ last.cycle = none := by
  cases hLost : last.lost with
  | true => exact nothing_left_of_lost h hRun hLost
  | false => exact ((h.of_run hRun hLost).isDone_iff.mp hDone).2

theorem effects_of_panic (hStep : o.step (.ended .panic) = some (next, effects)) :
    effects = (CycleEnd.panic : CycleEnd ρ).report := by
  obtain ⟨-, hMove⟩ := step_eq_some_iff.mp hStep
  cases hMove with
  | rested _ hReturned => cases hReturned
  | followed _ hReturned => cases hReturned
  | panicked => rfl

/-- A run without a panic ends with the regenerator that has come back last, or the first one if none has. -/
theorem result?_of_isDone {first : ρ} (h : Coherent o) (hFirst : o.regenerator = some first)
    (hRun : o.run signals = some (last, effects)) (hDone : last.isDone = true) (hPanic : .ended .panic ∉ signals) :
    last.result? = (first :: Signal.returned signals).getLast? := by
  have hLedger := h.run_ledger hRun hPanic
  obtain ⟨held, hResult, hHeld⟩ := (h.run hRun hPanic).result_eq_some_of_isDone hDone
  rw [hFirst, hHeld, Option.toList_some, Option.toList_some, List.singleton_append] at hLedger
  rw [hResult, hLedger, List.getLast?_append, List.getLast?_singleton, Option.some_or]

/-! ### All runs -/

/-- The loop on a channel that these changes come through before it closes. -/
structure EndsOn (begun : Orchestrator ρ) (first : ρ) (stream : List Change) : Prop where
  bounded : ∀ signals o effects, begun.run signals = some (o, effects) → Receives stream signals →
    signals.length ≤ stream.length + 2 * stream.countP begun.filter.accepts + 1
  /-- While the run has not ended something is still to come, and whatever comes is taken. -/
  goesOn : ∀ signals o effects, begun.run signals = some (o, effects) → Receives stream signals → o.isDone = false →
    (∃ s, Receives stream (signals ++ [s]) ∧ o.awaits s = true) ∧ ∀ s, o.awaits s = true → (o.step s).isSome = true
  /-- So a run has ended where nothing can come that has not. -/
  ended : ∀ signals o effects, begun.run signals = some (o, effects) → Receives stream signals →
    (∀ s, Receives stream (signals ++ [s]) → o.step s = none) → o.isDone = true
  afterClose : ∀ before after closed o told effects, begun.run (before ++ [.closed]) = some (closed, told) →
    closed.run after = some (o, effects) → effects.count .startCycle ≤ 1
  nothingLeft : ∀ signals o effects, begun.run signals = some (o, effects) → o.isDone = true →
    o.deadline = none ∧ o.cycle = none ∧ ∀ s, o.step s = none
  /-- Without a panic the regenerator comes back as the last cycle has left it, and else none does. -/
  result : ∀ signals o effects, begun.run signals = some (o, effects) → o.isDone = true →
    (.ended .panic ∉ signals → o.result? = (first :: Signal.returned signals).getLast?) ∧
      (.ended .panic ∈ signals → o.result? = none)
  /-- A panic is the last that happens, and nothing is done on it but to tell of it. -/
  panicked : ∀ before after o effects, begun.run (before ++ .ended .panic :: after) = some (o, effects) →
    after = [] ∧ o.isDone = true ∧
      begun.effectsAt before (.ended .panic) = [.tell (Log.error "Regeneration task failed:")]

theorem endsOn_start (filter : Filter) (debounce : Nat) (first : ρ) (stream : List Change) :
    EndsOn (start filter debounce first) first stream := by
  have hCoherent := Coherent.start filter debounce first
  refine ⟨?_, ?_, ?_, ?_, ?_, ?_, ?_⟩
  · intro signals o effects hRun hReceives
    have hLe := length_add_stepsLeft_le hRun
    have hStart : (start filter debounce first).stepsLeft = 1 := rfl
    have hChanges := changes_prefix_of_receives hReceives
    have hLength := hChanges.length_le
    have hCount : (signals.filterMap Signal.change?).countP (start filter debounce first).filter.accepts ≤
        stream.countP (start filter debounce first).filter.accepts := hChanges.sublist.countP_le
    omega
  · intro signals o effects hRun hReceives hDone
    exact ⟨exists_awaits_of_not_done hRun hReceives hDone,
      fun s hAwaits => step_isSome_iff.mpr ⟨kept_of_not_done hDone, hAwaits⟩⟩
  · intro signals o effects hRun hReceives hStuck
    cases hDone : o.isDone with
    | true => rfl
    | false =>
      obtain ⟨s, hNext, hAwaits⟩ := exists_awaits_of_not_done hRun hReceives hDone
      have hSome := step_isSome_iff.mpr ⟨kept_of_not_done hDone, hAwaits⟩
      rw [hStuck s hNext] at hSome
      cases hSome
  · intro before after closed o told effects hBefore hAfter
    refine count_startCycle_of_closed (hCoherent.of_run hBefore) ?_ hAfter
    rw [← Bool.not_eq_true, run_isOpen_iff hBefore]
    simp
  · intro signals o effects hRun hDone
    obtain ⟨hDeadline, hCycle⟩ := nothing_left_of_isDone hCoherent hRun hDone
    exact ⟨hDeadline, hCycle, isDone_iff_forall_step.mp hDone⟩
  · intro signals o effects hRun hDone
    refine ⟨result?_of_isDone hCoherent rfl hRun hDone, fun hPanic => ?_⟩
    have hLost := (run_lost_iff hRun).mpr (.inr hPanic)
    simp [result?, hLost]
  · intro before after o effects hRun
    obtain ⟨reached, _, next, _, hBefore, hStep, hAfter⟩ := exists_step_of_run hRun
    have hLost := (step_lost_iff hStep).mpr rfl
    obtain ⟨rfl, rfl, -⟩ := run_of_lost hLost hAfter
    exact ⟨rfl, by simp [isDone, hLost], effects_of_panic hStep⟩

def apart : List (Signal Nat) :=
  [.change 0 ⟨.created, "a.proto"⟩, .due, .ended (.success 1), .change 500 ⟨.modified, "b.proto"⟩, .closed, .due,
    .ended (.success 2)]

/-- They make as many steps as two changes can. -/
theorem endsOn_start_apart :
    ∃ o effects, counting.run apart = some (o, effects) ∧
      Receives [⟨.created, "a.proto"⟩, ⟨.modified, "b.proto"⟩] apart ∧ o.isDone = true ∧ .ended .panic ∉ apart ∧
      apart.length = 7 ∧ apart.length ≤ 2 + 2 * 2 + 1 ∧ o.result? = some 2 := by
  have hEnds := endsOn_start ⟨"/p", ["gen", "/p/gen"]⟩ 100 0 [⟨.created, "a.proto"⟩, ⟨.modified, "b.proto"⟩]
  have hReceives : Receives [⟨.created, "a.proto"⟩, ⟨.modified, "b.proto"⟩] apart := List.prefix_rfl
  have hPanic : Signal.ended .panic ∉ apart := by decide
  exact ⟨_, _, rfl, hReceives, rfl, hPanic, rfl, hEnds.bounded apart _ _ rfl hReceives,
    (hEnds.result apart _ _ rfl rfl).1 hPanic⟩

end Orchestrator

end ClientRegistry.Watch
