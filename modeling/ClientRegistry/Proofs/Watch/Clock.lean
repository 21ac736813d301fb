import ClientRegistry.Proofs.Watch.Causes
import ClientRegistry.Watch.Schedule

/-!
# What happens on a clock

The clock does not move while a signal is handled, and each start of a cycle is noted with its time. Until
a cycle panics, all changes are taken that the filter lets through.
-/

set_option autoImplicit false

namespace ClientRegistry.Watch

theorem CyclePlan.cycleEnd_ne_panic {p : CyclePlan} (h : p.ending ≠ .panic) (count : Nat) :
    p.cycleEnd count ≠ .panic := by
  cases hEnding : p.ending with
  | panic => exact absurd hEnding h
  | success => simp [cycleEnd, hEnding]
  | failure => simp [cycleEnd, hEnding]

namespace Timeline

def cycleTimes (t : Timeline) : List Nat := (t.trace.filter (·.2 = .cycle)).map Prod.fst

/-- When the changes come that the filter lets through, while the orchestrator is there to take them. -/
def acceptedTimes (plans : List CyclePlan) (t : Timeline) : List SenderStep → List Nat
  | [] => []
  | .send c :: rest =>
    if t.orchestrator.lost = false ∧ t.orchestrator.filter.accepts c = true then
      t.now :: acceptedTimes plans (t.senderStep plans (.send c)) rest
    else acceptedTimes plans (t.senderStep plans (.send c)) rest
  | .sleep time :: rest => acceptedTimes plans (t.senderStep plans (.sleep time)) rest

def sentTimes (filter : Filter) (now : Nat) : List SenderStep → List Nat
  | [] => []
  | .send c :: rest =>
    if filter.accepts c = true then now :: sentTimes filter now rest else sentTimes filter now rest
  | .sleep time :: rest => sentTimes filter (now + time) rest

variable {t : Timeline} {plans : List CyclePlan} {s : Signal Nat} {next : Orchestrator Nat} {effects : List Effect}

@[simp] theorem now_note (t : Timeline) (o : Occurrence) : (t.note o).now = t.now := rfl

@[simp] theorem orchestrator_note (t : Timeline) (o : Occurrence) : (t.note o).orchestrator = t.orchestrator := rfl

theorem cycleTimes_note (t : Timeline) (o : Occurrence) :
    (t.note o).cycleTimes = t.cycleTimes ++ if o = .cycle then [t.now] else [] := by
  rw [cycleTimes, note, List.filter_append, List.map_append]
  by_cases h : o = .cycle <;> simp [h, cycleTimes]

@[simp] theorem now_perform (t : Timeline) (e : Effect) : (t.perform e).now = t.now := by
  cases e <;> rfl

@[simp] theorem orchestrator_perform (t : Timeline) (e : Effect) : (t.perform e).orchestrator = t.orchestrator := by
  cases e <;> rfl

theorem cycleTimes_perform (t : Timeline) (e : Effect) :
    (t.perform e).cycleTimes = t.cycleTimes ++ if e = .startCycle then [t.now] else [] := by
  cases e with
  | tell => exact (List.append_nil _).symm
  | startCycle => exact cycleTimes_note t .cycle
  | reload r => exact cycleTimes_note t (.reload r)

@[simp] theorem now_foldl_perform (t : Timeline) (effects : List Effect) :
    (effects.foldl perform t).now = t.now := by
  induction effects generalizing t with
  | nil => rfl
  | cons e rest ih => rw [List.foldl_cons, ih, now_perform]

@[simp] theorem orchestrator_foldl_perform (t : Timeline) (effects : List Effect) :
    (effects.foldl perform t).orchestrator = t.orchestrator := by
  induction effects generalizing t with
  | nil => rfl
  | cons e rest ih => rw [List.foldl_cons, ih, orchestrator_perform]

theorem cycleTimes_foldl_perform (t : Timeline) (effects : List Effect) :
    (effects.foldl perform t).cycleTimes = t.cycleTimes ++ List.replicate (effects.count .startCycle) t.now := by
  induction effects generalizing t with
  | nil => simp
  | cons e rest ih =>
    rw [List.foldl_cons, ih, cycleTimes_perform, now_perform, List.append_assoc]
    by_cases h : e = .startCycle <;> simp [h, List.replicate_succ]

@[simp] theorem now_signal (t : Timeline) (s : Signal Nat) : (t.signal s).now = t.now := by
  unfold signal
  split <;> simp

theorem orchestrator_signal (hStep : t.orchestrator.step s = some (next, effects)) :
    (t.signal s).orchestrator = next := by
  simp [signal, hStep]

theorem cycleTimes_signal (hStep : t.orchestrator.step s = some (next, effects)) :
    (t.signal s).cycleTimes = t.cycleTimes ++ List.replicate (effects.count .startCycle) t.now := by
  rw [signal, hStep]
  exact cycleTimes_foldl_perform ..

theorem signal_of_step_eq_none (hStep : t.orchestrator.step s = none) : t.signal s = t := by
  simp [signal, hStep]

theorem senderStep_send {c : Change} (h : t.orchestrator.lost = false) :
    t.senderStep plans (.send c) = (t.note .sent).signal (.change t.now c) := by
  simp [senderStep, h, change]

theorem runCycles_of_idle (h : t.orchestrator.cycle = none) (steps : Nat) : runCycles plans steps t = t := by
  cases steps with
  | zero => rfl
  | succ steps => simp [runCycles, h]

@[simp] theorem now_advance (t : Timeline) (time : Nat) : (t.advance plans time).now = time := by
  unfold advance
  split
  · split <;> rfl
  · rfl

@[simp] theorem now_send (t : Timeline) (c : Change) : (t.senderStep plans (.send c)).now = t.now := by
  rw [senderStep]
  split <;> simp [change]

@[simp] theorem now_sleep (t : Timeline) (time : Nat) :
    (t.senderStep plans (.sleep time)).now = t.now + time :=
  now_advance t (t.now + time)

theorem now_le_senderStep (t : Timeline) (step : SenderStep) : t.now ≤ (t.senderStep plans step).now := by
  cases step <;> simp

theorem le_acceptedTimes {steps : List SenderStep} {time : Nat} (h : time ∈ t.acceptedTimes plans steps) :
    t.now ≤ time := by
  induction steps generalizing t with
  | nil => cases h
  | cons step rest ih =>
    have hLater : time ∈ (t.senderStep plans step).acceptedTimes plans rest → t.now ≤ time :=
      fun hRest => Nat.le_trans (now_le_senderStep t step) (ih hRest)
    cases step with
    | send c =>
      rw [acceptedTimes] at h
      split at h
      · rcases List.mem_cons.mp h with rfl | hRest
        · exact Nat.le_refl _
        · exact hLater hRest
      · exact hLater h
    | sleep => exact hLater h

/-! ### Cycles that do not panic -/

structure Listening (filter : Filter) (t : Timeline) : Prop where
  kept : t.orchestrator.lost = false
  sameFilter : t.orchestrator.filter = filter

namespace Listening

variable {filter : Filter}

theorem of_orchestrator_eq {t' : Timeline} (h : Listening filter t) (hSame : t'.orchestrator = t.orchestrator) :
    Listening filter t' := by
  constructor
  · rw [hSame, h.kept]
  · rw [hSame, h.sameFilter]

theorem signal (h : Listening filter t) (hPanic : s ≠ .ended .panic) : Listening filter (t.signal s) := by
  cases hStep : t.orchestrator.step s with
  | none =>
    rw [signal_of_step_eq_none hStep]
    exact h
  | some result =>
    have hReached : (t.signal s).orchestrator = result.1 := orchestrator_signal hStep
    constructor
    · rw [hReached, ← h.kept]
      exact Orchestrator.step_lost hStep hPanic
    · rw [hReached, ← h.sameFilter]
      exact Orchestrator.step_filter hStep

theorem changes (h : Listening filter t) (during : List Change) : Listening filter (during.foldl change t) := by
  induction during generalizing t with
  | nil => exact h
  | cons c rest ih => exact ih (h.signal nofun)

theorem runCycles (h : Listening filter t) (hPanic : ∀ p ∈ plans, p.ending ≠ .panic) (steps : Nat) :
    Listening filter (runCycles plans steps t) := by
  induction steps generalizing t with
  | zero => exact h
  | succ steps ih =>
    rw [Timeline.runCycles]
    split
    · exact h
    · rename_i count _
      apply ih
      apply (h.changes _).signal
      rw [ne_eq, Signal.ended.injEq]
      cases hPlan : plans[count]? with
      | none => nofun
      | some p => exact CyclePlan.cycleEnd_ne_panic (hPanic p (List.mem_of_getElem? hPlan)) count

theorem senderStep (h : Listening filter t) (hPanic : ∀ p ∈ plans, p.ending ≠ .panic) (step : SenderStep) :
    Listening filter (t.senderStep plans step) := by
  have hDue : ∀ t' : Timeline, t'.orchestrator = t.orchestrator → Listening filter (t'.due plans) := by
    intro t' hSame
    have hFirst : Listening filter (t'.signal .due) := (h.of_orchestrator_eq hSame).signal nofun
    exact hFirst.runCycles hPanic _
  cases step with
  | send c =>
    have hSent : Listening filter (t.note .sent) := h.of_orchestrator_eq rfl
    have hNext : Listening filter ((t.note .sent).signal (.change t.now c)) := hSent.signal nofun
    rwa [senderStep_send h.kept]
  | sleep time =>
    rw [Timeline.senderStep, advance]
    split
    · split
      · rename_i deadline _ _
        exact (hDue { t with now := deadline } rfl).of_orchestrator_eq rfl
      · exact h.of_orchestrator_eq rfl
    · exact h.of_orchestrator_eq rfl

/-- Then all changes are taken that the filter lets through. -/
theorem acceptedTimes_eq (h : Listening filter t) (hPanic : ∀ p ∈ plans, p.ending ≠ .panic)
    (steps : List SenderStep) : t.acceptedTimes plans steps = sentTimes filter t.now steps := by
  induction steps generalizing t with
  | nil => rfl
  | cons step rest ih =>
    have hRest := ih (h.senderStep hPanic step)
    cases step with
    | send c =>
      rw [now_send] at hRest
      rw [acceptedTimes, sentTimes, hRest, h.sameFilter]
      simp only [h.kept, true_and]
    | sleep time =>
      rw [now_sleep] at hRest
      exact hRest

end Listening

end Timeline

end ClientRegistry.Watch
