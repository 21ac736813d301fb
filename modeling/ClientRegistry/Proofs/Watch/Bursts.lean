import Mathlib.Data.List.Chain
import ClientRegistry.Proofs.Watch.Clock
import ClientRegistry.Proofs.Watch.Timing

/-!
# One cycle for a burst

Where cycles take no time, their starts are known from the changes alone: one cycle starts the debounce
time after each change that no other one follows by then. The last change of a burst is carried along
until its cycle has started, which a sleep or the end of the changes has it do.
-/

set_option autoImplicit false

namespace ClientRegistry.Watch

/-- A cycle during which no change has come leaves nothing behind when it ends. -/
theorem Orchestrator.Coherent.ended_of_generating {ρ : Type} {o : Orchestrator ρ} (h : Coherent o)
    (hPhase : o.phase = .generating) (e : CycleEnd ρ) :
    ∃ next, o.step (.ended e) = some (next, e.report) ∧ next.cycle = none ∧ next.deadline = none ∧
      next.isOpen = o.isOpen ∧ next.debounce = o.debounce ∧ (next.lost = false → Coherent next) := by
  have hCycle : o.cycle.isSome = true := by
    rw [← Option.ne_none_iff_isSome, ne_eq, ← h.idle_iff, hPhase]
    nofun
  have hDeadline := h.deadline_eq_none_of_cycle hCycle
  cases hReturned : e.returned? with
  | none =>
    rw [CycleEnd.returned?_eq_none_iff] at hReturned
    subst e
    exact ⟨_, step_eq_some_iff.mpr ⟨h.kept, .panicked hCycle⟩, rfl, hDeadline, rfl, rfl, nofun⟩
  | some next =>
    have hStep := step_eq_some_iff.mpr ⟨h.kept, .rested hCycle hReturned (by rw [hPhase]; nofun)⟩
    refine ⟨_, hStep, rfl, hDeadline, rfl, rfl, fun _ => h.step hStep ?_⟩
    rintro ⟨⟩
    cases hReturned

/-- The times that lie the debounce time after a change that none follows by then. -/
def burstStarts (debounce : Nat) : List Nat → List Nat
  | [] => []
  | time :: rest =>
    if rest.head?.all (time + debounce < ·) then (time + debounce) :: burstStarts debounce rest
    else burstStarts debounce rest

namespace Timeline

/-! ### Between the steps of the sender -/

/-- No cycle runs, and one is due for the last change, at the time `pending`, if it has not started yet. -/
structure Settled (debounce : Nat) (t : Timeline) (pending : Option Nat) : Prop where
  idle : t.orchestrator.cycle = none
  isOpen : t.orchestrator.isOpen = true
  sameDebounce : t.orchestrator.debounce = debounce
  deadline : t.orchestrator.deadline = pending.map (· + debounce)
  ahead : ∀ last ∈ pending, t.now ≤ last + debounce
  kept : t.orchestrator.lost = false → Orchestrator.Coherent t.orchestrator
  lost : t.orchestrator.lost = true → pending = none

structure Fired (t done : Timeline) : Prop where
  now : done.now = t.now
  cycleTimes : done.cycleTimes = t.cycleTimes ++ [t.now]
  idle : done.orchestrator.cycle = none
  isOpen : done.orchestrator.isOpen = t.orchestrator.isOpen
  sameDebounce : done.orchestrator.debounce = t.orchestrator.debounce
  deadline : done.orchestrator.deadline = none
  kept : done.orchestrator.lost = false → Orchestrator.Coherent done.orchestrator

variable {t : Timeline} {plans : List CyclePlan} {debounce : Nat} {pending : Option Nat}

theorem fired_due (hCoherent : Orchestrator.Coherent t.orchestrator) (hArmed : t.orchestrator.deadline.isSome = true)
    (hQuiet : ∀ p ∈ plans, p.during = []) : Fired t (t.due plans) := by
  obtain ⟨held, _, hStep⟩ := hCoherent.due_starts hArmed
  have hStarted := orchestrator_signal hStep
  have hDuring : (plans[held]?.getD CyclePlan.plain).during = [] := by
    cases hPlan : plans[held]? with
    | none => rfl
    | some p => exact hQuiet p (List.mem_of_getElem? hPlan)
  obtain ⟨next, hEnded, hIdle, hDeadline, hOpen, hDebounce, hKept⟩ :=
    (hCoherent.step hStep nofun).ended_of_generating rfl ((plans[held]?.getD CyclePlan.plain).cycleEnd held)
  rw [← hStarted] at hEnded
  have hReached := orchestrator_signal hEnded
  have hDone : t.due plans =
      (t.signal .due).signal (.ended ((plans[held]?.getD CyclePlan.plain).cycleEnd held)) := by
    rw [due, runCycles]
    simp only [hStarted, hDuring, List.foldl_nil]
    exact runCycles_of_idle (by rw [hReached, hIdle]) _
  rw [hDone]
  constructor
  · simp
  · rw [cycleTimes_signal hEnded, cycleTimes_signal hStep,
      List.count_eq_zero_of_not_mem (CycleEnd.startCycle_not_mem_report _)]
    simp
  · rw [hReached, hIdle]
  · rw [hReached, hOpen]
  · rw [hReached, hDebounce]
  · rw [hReached, hDeadline]
  · rwa [hReached]

namespace Settled

theorem start (filter : Filter) (debounce : Nat) : Settled debounce (Timeline.start filter debounce) none where
  idle := rfl
  isOpen := rfl
  sameDebounce := rfl
  deadline := rfl
  ahead := nofun
  kept _ := Orchestrator.Coherent.start filter debounce 0
  lost := nofun

theorem congr {t' : Timeline} (h : Settled debounce t pending) (hOrchestrator : t'.orchestrator = t.orchestrator)
    (hAhead : ∀ last ∈ pending, t'.now ≤ last + debounce) : Settled debounce t' pending := by
  constructor
  · rw [hOrchestrator, h.idle]
  · rw [hOrchestrator, h.isOpen]
  · rw [hOrchestrator, h.sameDebounce]
  · rw [hOrchestrator, h.deadline]
  · exact hAhead
  · rw [hOrchestrator]
    exact h.kept
  · rw [hOrchestrator]
    exact h.lost

theorem of_fired {done : Timeline} (h : Settled debounce t pending) (hFired : Fired t done) :
    Settled debounce done none where
  idle := hFired.idle
  isOpen := by rw [hFired.isOpen, h.isOpen]
  sameDebounce := by rw [hFired.sameDebounce, h.sameDebounce]
  deadline := hFired.deadline
  ahead := nofun
  kept := hFired.kept
  lost _ := rfl

variable {c : Change}

theorem accepted (plans : List CyclePlan) (h : Settled debounce t pending)
    (hLost : t.orchestrator.lost = false) (hAccepted : t.orchestrator.filter.accepts c = true) :
    Settled debounce (t.senderStep plans (.send c)) (some t.now) ∧
      (t.senderStep plans (.send c)).cycleTimes = t.cycleTimes := by
  have hCoherent := h.kept hLost
  have hMove : t.orchestrator.Move (.change t.now c) _ _ :=
    .armed h.isOpen hAccepted (hCoherent.idle_iff.mpr h.idle)
  have hStep := Orchestrator.step_eq_some_iff.mpr ⟨hLost, hMove⟩
  rw [senderStep_send hLost]
  have hReached := orchestrator_signal (t := t.note .sent) hStep
  constructor
  · have hAhead : ∀ last ∈ some t.now, ((t.note .sent).signal (.change t.now c)).now ≤ last + debounce := by
      rintro _ ⟨⟩
      simp
    refine ⟨?_, ?_, ?_, ?_, hAhead, ?_, ?_⟩ <;> rw [hReached]
    · exact h.idle
    · exact h.isOpen
    · exact h.sameDebounce
    · exact congrArg (fun d => some (t.now + d)) h.sameDebounce
    · intro _
      exact hCoherent.step hStep nofun
    · intro hNextLost
      exact absurd (hLost.symm.trans hNextLost) nofun
  · rw [cycleTimes_signal (t := t.note .sent) hStep, cycleTimes_note]
    simp

theorem unaccepted (plans : List CyclePlan) (h : Settled debounce t pending)
    (hNot : ¬ (t.orchestrator.lost = false ∧ t.orchestrator.filter.accepts c = true)) :
    Settled debounce (t.senderStep plans (.send c)) pending ∧
      (t.senderStep plans (.send c)).cycleTimes = t.cycleTimes := by
  cases hLost : t.orchestrator.lost with
  | true =>
    have hNext : t.senderStep plans (.send c) = t.note .refused := by simp [senderStep, hLost]
    rw [hNext, cycleTimes_note]
    exact ⟨h.congr rfl h.ahead, by simp⟩
  | false =>
    have hRejected : t.orchestrator.filter.accepts c = false :=
      eq_false_of_ne_true fun hAccepted => hNot ⟨hLost, hAccepted⟩
    have hMove : t.orchestrator.Move (.change t.now c) _ _ := .ignored h.isOpen hRejected
    have hStep := Orchestrator.step_eq_some_iff.mpr ⟨hLost, hMove⟩
    rw [senderStep_send hLost, cycleTimes_signal (t := t.note .sent) hStep, cycleTimes_note]
    refine ⟨h.congr (orchestrator_signal (t := t.note .sent) hStep) ?_, by simp⟩
    rw [now_signal]
    exact h.ahead

theorem lost_eq_false {last : Nat} (h : Settled debounce t (some last)) : t.orchestrator.lost = false := by
  rw [← Bool.not_eq_true]
  intro hLost
  cases h.lost hLost

theorem fired {last : Nat} (h : Settled debounce t (some last)) (hQuiet : ∀ p ∈ plans, p.during = []) :
    Fired { t with now := last + debounce } (due plans { t with now := last + debounce }) := by
  refine fired_due (h.kept h.lost_eq_false) ?_ hQuiet
  rw [h.deadline]
  rfl

/-- A sleep starts the cycle that is due by its end, and no other. -/
theorem sleep (h : Settled debounce t pending) (hQuiet : ∀ p ∈ plans, p.during = []) (time : Nat) :
    (∃ last ∈ pending, last + debounce ≤ t.now + time ∧
      Settled debounce (t.senderStep plans (.sleep time)) none ∧
        (t.senderStep plans (.sleep time)).cycleTimes = t.cycleTimes ++ [last + debounce]) ∨
    (Settled debounce (t.senderStep plans (.sleep time)) pending ∧
      (t.senderStep plans (.sleep time)).cycleTimes = t.cycleTimes) := by
  have hNone : ∀ last ∈ (none : Option Nat), t.now + time ≤ last + debounce := by
    intro last hLast
    cases hLast
  cases pending with
  | none =>
    right
    have hNext : t.senderStep plans (.sleep time) = { t with now := t.now + time } := by
      simp [senderStep, advance, h.deadline]
    rw [hNext]
    exact ⟨h.congr rfl hNone, rfl⟩
  | some last =>
    by_cases hDue : last + debounce ≤ t.now + time
    · left
      have hReached : Settled debounce { t with now := last + debounce } (some last) := by
        refine h.congr rfl ?_
        rintro _ ⟨⟩
        exact Nat.le_refl _
      have hFired := h.fired hQuiet
      have hNext : t.senderStep plans (.sleep time) =
          { due plans { t with now := last + debounce } with now := t.now + time } := by
        simp [senderStep, advance, h.deadline, hDue]
      refine ⟨last, rfl, hDue, ?_, ?_⟩
      · rw [hNext]
        exact (hReached.of_fired hFired).congr rfl hNone
      · rw [hNext]
        exact hFired.cycleTimes
    · right
      have hNext : t.senderStep plans (.sleep time) = { t with now := t.now + time } := by
        simp [senderStep, advance, h.deadline, hDue]
      rw [hNext]
      refine ⟨h.congr rfl ?_, rfl⟩
      rintro _ ⟨⟩
      exact Nat.le_of_not_le hDue

theorem cycleTimes_finish (h : Settled debounce t pending) (hQuiet : ∀ p ∈ plans, p.during = []) :
    (t.finish plans).cycleTimes = t.cycleTimes ++ (pending.map (· + debounce)).toList := by
  cases hLost : t.orchestrator.lost with
  | true =>
    have hStep : t.orchestrator.step .closed = none := by simp [Orchestrator.step, hLost]
    have hPending := h.lost hLost
    subst hPending
    simp [finish, signal_of_step_eq_none hStep, h.deadline]
  | false =>
    have hStep := Orchestrator.step_eq_some_iff.mpr ⟨hLost, .closed h.isOpen⟩
    have hReached := orchestrator_signal hStep
    have hTimes : (t.signal .closed).cycleTimes = t.cycleTimes := by
      rw [cycleTimes_signal hStep]
      simp
    have hDeadline : (t.signal .closed).orchestrator.deadline = pending.map (· + debounce) := by
      rw [hReached, ← h.deadline]
    cases pending with
    | none => simp [finish, hDeadline, hTimes]
    | some last =>
      have hCoherent := (h.kept hLost).step hStep (by simp)
      rw [← hReached] at hCoherent
      have hFired := fired_due (t := { t.signal .closed with now := last + debounce }) hCoherent
        (by simp [hDeadline]) hQuiet
      have hFinish : t.finish plans = due plans { t.signal .closed with now := last + debounce } := by
        simp [finish, hDeadline]
      rw [hFinish, hFired.cycleTimes]
      exact congrArg (· ++ _) hTimes

end Settled

/-! ### Bursts -/

theorem burstStarts_of_followed {time later : Nat} {rest : List Nat} (h : later ≤ time + debounce) :
    burstStarts debounce (time :: later :: rest) = burstStarts debounce (later :: rest) := by
  rw [burstStarts, if_neg]
  simpa using h

theorem burstStarts_of_quiet {time : Nat} {rest : List Nat} (h : ∀ later ∈ rest.head?, time + debounce < later) :
    burstStarts debounce (time :: rest) = (time + debounce) :: burstStarts debounce rest := by
  rw [burstStarts, if_pos]
  simpa [Option.all_eq_true] using h

/-- From where the sender pauses, the cycles to come are those of the changes to come and of the last
one, if its cycle has not started. -/
theorem cycleTimes_of_settled {steps : List SenderStep} (hQuiet : ∀ p ∈ plans, p.during = [])
    (h : Settled debounce t pending)
    (hGaps : (pending.toList ++ t.acceptedTimes plans steps).IsChain fun time later => later ≠ time + debounce) :
    ((steps.foldl (senderStep plans) t).finish plans).cycleTimes =
      t.cycleTimes ++ burstStarts debounce (pending.toList ++ t.acceptedTimes plans steps) := by
  induction steps generalizing t pending with
  | nil =>
    rw [List.foldl_nil, h.cycleTimes_finish hQuiet]
    cases pending with
    | none => rfl
    | some last => rfl
  | cons step rest ih =>
    rw [List.foldl_cons]
    cases step with
    | send c =>
      rw [acceptedTimes] at hGaps ⊢
      split
      · rename_i hTaken
        rw [if_pos hTaken] at hGaps
        obtain ⟨hNext, hTimes⟩ := h.accepted plans hTaken.1 hTaken.2
        rw [ih hNext (List.isChain_append.mp hGaps).2.1, hTimes]
        cases pending with
        | none => rfl
        | some last => exact congrArg (_ ++ ·) (burstStarts_of_followed (h.ahead last rfl)).symm
      · rename_i hNot
        rw [if_neg hNot] at hGaps
        obtain ⟨hNext, hTimes⟩ := h.unaccepted plans hNot
        rw [ih hNext hGaps, hTimes]
    | sleep time =>
      rw [acceptedTimes] at hGaps ⊢
      rcases h.sleep hQuiet time with ⟨last, rfl, hDue, hNext, hTimes⟩ | ⟨hNext, hTimes⟩
      · have hLater : ∀ later ∈ ((t.senderStep plans (.sleep time)).acceptedTimes plans rest).head?,
            last + debounce < later := by
          intro later hHead
          have hFrom : t.now + time ≤ later := by
            have hLe := le_acceptedTimes (List.mem_of_head? hHead)
            rwa [now_sleep] at hLe
          have hNe : later ≠ last + debounce := (List.isChain_cons.mp hGaps).1 later hHead
          omega
        rw [ih hNext hGaps.tail, hTimes, List.append_assoc]
        exact congrArg (_ ++ ·) (burstStarts_of_quiet hLater).symm
      · rw [ih hNext hGaps, hTimes]

end Timeline

/-! ### All runs -/

structure StartsOnTime (filter : Filter) (debounce : Nat) : Prop where
  /-- Where cycles take no time and no change follows the one before it after just the debounce time. -/
  bursts : ∀ plans steps, (∀ p ∈ plans, p.during = []) →
    ((Timeline.start filter debounce).acceptedTimes plans steps).IsChain
      (fun time later => later ≠ time + debounce) →
    (Timeline.play filter debounce plans steps).cycleTimes =
      burstStarts debounce ((Timeline.start filter debounce).acceptedTimes plans steps)
  /-- Where no cycle panics, all changes count that the filter lets through. -/
  accepted : ∀ plans steps, (∀ p ∈ plans, p.ending ≠ .panic) →
    (Timeline.start filter debounce).acceptedTimes plans steps = Timeline.sentTimes filter 0 steps
  causes : ∀ {ρ : Type} (first : ρ) (timed before after : List (Nat × Signal ρ)) (now : Nat) (s : Signal ρ),
    (Orchestrator.start filter debounce first).Clocked timed → timed = before ++ (now, s) :: after →
      .startCycle ∈ (Orchestrator.start filter debounce first).effectsAt (before.map Prod.snd) s →
        (Orchestrator.start filter debounce first).StartCause before now s

theorem startsOnTime (filter : Filter) (debounce : Nat) : StartsOnTime filter debounce := by
  constructor
  · intro plans steps hQuiet hGaps
    exact Timeline.cycleTimes_of_settled hQuiet (Timeline.Settled.start filter debounce) hGaps
  · intro plans steps hPanic
    have hListening : Timeline.Listening filter (Timeline.start filter debounce) := ⟨rfl, rfl⟩
    exact hListening.acceptedTimes_eq hPanic steps
  · intro ρ first timed before after now s hClocked hSplit hStart
    exact hClocked.startCause (Orchestrator.Coherent.start filter debounce first) rfl rfl hSplit hStart

def overlapping : List (Nat × Signal Nat) :=
  [(0, .change 0 ⟨.created, "a.proto"⟩), (100, .due), (150, .change 150 ⟨.modified, "b.proto"⟩),
    (170, .ended (.success 1))]

theorem clocked_overlapping : Orchestrator.counting.Clocked overlapping := by
  refine ⟨⟨_, _, rfl⟩, by decide, ?_⟩
  rintro (_ | ⟨_, _ | ⟨_, _ | ⟨_, _ | ⟨_, _⟩⟩⟩⟩) now s after o effects hSplit hRun
  · cases hSplit
    rfl
  · cases hSplit
    cases hRun
    exact ⟨100, rfl, Nat.le_refl _⟩
  · cases hSplit
    rfl
  · cases hSplit
    trivial
  · simp [overlapping] at hSplit

/-- Of three changes the first two are one burst. The end of an overlapping cycle starts another one. -/
theorem startsOnTime_burst_overlapping :
    (Timeline.play ⟨"/p", ["gen", "/p/gen"]⟩ 100 [] [.send ⟨.created, "a.proto"⟩, .sleep 60,
        .send ⟨.modified, "a.proto"⟩, .sleep 101, .send ⟨.modified, "b.proto"⟩]).cycleTimes = [160, 261] ∧
      Orchestrator.counting.Clocked overlapping ∧
      Orchestrator.counting.StartCause (overlapping.take 3) 170 (.ended (.success 1)) :=
  ⟨(startsOnTime ⟨"/p", ["gen", "/p/gen"]⟩ 100).bursts [] _ nofun (by decide), clocked_overlapping,
    (startsOnTime ⟨"/p", ["gen", "/p/gen"]⟩ 100).causes 0 overlapping _ [] 170 _ clocked_overlapping rfl (by decide)⟩

end ClientRegistry.Watch
