import Mathlib.Data.List.Induction
import ClientRegistry.Proofs.Watch.Causes

/-!
# When cycles start

A deadline is set by the last change that counts, and lies the debounce time after it. So a cycle that
a deadline starts comes that much later at least than every change before it, and any other cycle
starts when the one before it ends.
-/

set_option autoImplicit false

namespace ClientRegistry.Watch

variable {ρ : Type}

/-! ### Signals at their times -/

/-- A change is taken in when it comes, and a deadline does not pass before its time. -/
def Signal.CanCome (now : Nat) (o : Orchestrator ρ) : Signal ρ → Prop
  | .change time _ => time = now
  | .due => ∃ deadline, o.deadline = some deadline ∧ deadline ≤ now
  | _ => True

namespace Orchestrator

/-- A run in which each signal comes at its time. A cycle takes as long as it likes. -/
structure Clocked (begun : Orchestrator ρ) (timed : List (Nat × Signal ρ)) : Prop where
  runs : ∃ o effects, begun.run (timed.map Prod.snd) = some (o, effects)
  ordered : (timed.map Prod.fst).Pairwise (· ≤ ·)
  onTime : ∀ before now s after o effects, timed = before ++ (now, s) :: after →
    begun.run (before.map Prod.snd) = some (o, effects) → s.CanCome now o

def Waits (past : List (Nat × Signal ρ)) (o : Orchestrator ρ) : Prop :=
  ∀ deadline, o.deadline = some deadline → ∀ p ∈ past, p.2.counts o.filter = true → p.1 + o.debounce ≤ deadline

theorem step_debounce {o next : Orchestrator ρ} {s : Signal ρ} {effects : List Effect}
    (h : o.step s = some (next, effects)) : next.debounce = o.debounce := by
  obtain ⟨-, hMove⟩ := step_eq_some_iff.mp h
  cases hMove <;> rfl

variable {o next : Orchestrator ρ} {s : Signal ρ} {now : Nat} {past : List (Nat × Signal ρ)} {effects : List Effect}

theorem waits_of_deadline_eq_none (h : o.deadline = none) : o.Waits past := by
  intro deadline hDeadline
  rw [h] at hDeadline
  cases hDeadline

/-- A deadline that stays is not for a signal that does not count. -/
theorem Waits.concat (h : o.Waits past) (hCounts : s.counts o.filter = false) : o.Waits (past ++ [(now, s)]) := by
  intro deadline hDeadline p hp hpCounts
  rcases List.mem_append.mp hp with hOld | hNew
  · exact h deadline hDeadline p hOld hpCounts
  · rw [List.mem_singleton.mp hNew, hCounts] at hpCounts
    cases hpCounts

theorem Waits.step (h : o.Waits past) (hCoherent : Coherent o) (hStep : o.step s = some (next, effects))
    (hPast : ∀ p ∈ past, p.1 ≤ now) (hCanCome : s.CanCome now o) : next.Waits (past ++ [(now, s)]) := by
  obtain ⟨-, hMove⟩ := step_eq_some_iff.mp hStep
  cases hMove with
  | ignored _ hRejected => exact h.concat hRejected
  | armed =>
    obtain rfl : _ = now := hCanCome
    intro deadline hDeadline p hp _
    obtain rfl := Option.some.inj hDeadline
    apply Nat.add_le_add_right
    rcases List.mem_append.mp hp with hOld | hNew
    · exact hPast p hOld
    · obtain rfl := List.mem_singleton.mp hNew
      exact Nat.le_refl _
  | noted _ _ hBusy =>
    apply waits_of_deadline_eq_none
    exact Option.not_isSome_iff_eq_none.mp fun hArmed => hBusy (hCoherent.armed hArmed)
  | closed => exact Waits.concat h rfl
  | started | missed => exact waits_of_deadline_eq_none rfl
  | rested hCycle | followed hCycle | panicked hCycle =>
    exact waits_of_deadline_eq_none (hCoherent.deadline_eq_none_of_cycle hCycle)

theorem run_debounce {signals : List (Signal ρ)} (h : o.run signals = some (next, effects)) :
    next.debounce = o.debounce :=
  run_preserves (fun reached => reached.debounce = o.debounce)
    (fun _ _ _ _ _ hDebounce hStep => (step_debounce hStep).trans hDebounce) h rfl

/-! ### What a cycle starts from -/

/-- What has a cycle start on the signal `s` at the time `now`, when `past` has come before. -/
inductive StartCause (begun : Orchestrator ρ) (past : List (Nat × Signal ρ)) (now : Nat) : Signal ρ → Prop where
  | timer (hQuiet : ∀ p ∈ past, p.2.counts begun.filter = true → p.1 + begun.debounce ≤ now) :
      StartCause begun past now .due
  /-- The cycle that ends now has started on `s₀`, and a change has come since. -/
  | followUp {earlier during : List (Nat × Signal ρ)} {time : Nat} {s₀ : Signal ρ} {e : CycleEnd ρ}
      (hPast : past = earlier ++ (time, s₀) :: during)
      (hStart : .startCycle ∈ begun.effectsAt (earlier.map Prod.snd) s₀)
      (hDuring : ∀ p ∈ during, p.2.end? = none)
      (hChange : ∃ p ∈ during, p.2.counts begun.filter = true) : StartCause begun past now (.ended e)

variable {begun : Orchestrator ρ} {timed before after : List (Nat × Signal ρ)}

theorem Clocked.waits (h : Clocked begun timed) (hCoherent : Coherent begun) (hDeadline : begun.deadline = none)
    (hSplit : timed = before ++ after) (hRun : begun.run (before.map Prod.snd) = some (o, effects)) :
    o.Waits before := by
  induction before using List.reverseRecOn generalizing after o effects with
  | nil =>
    cases hRun
    exact waits_of_deadline_eq_none hDeadline
  | append_singleton earlier p ih =>
    obtain ⟨now, s⟩ := p
    rw [List.append_assoc, List.singleton_append] at hSplit
    rw [List.map_append, List.map_singleton] at hRun
    obtain ⟨reached, told, next, more, hEarlier, hStep, hNil⟩ := exists_step_of_run hRun
    cases hNil
    have hPast : ∀ q ∈ earlier, q.1 ≤ now := by
      have hOrdered := h.ordered
      rw [hSplit, List.map_append, List.pairwise_append] at hOrdered
      intro q hq
      exact hOrdered.2.2 q.1 (List.mem_map_of_mem hq) now List.mem_cons_self
    exact (ih hSplit hEarlier).step (hCoherent.of_run_step hEarlier hStep) hStep hPast
      (h.onTime earlier now s after reached told hSplit hEarlier)

theorem Clocked.startCause (h : Clocked begun timed) (hCoherent : Coherent begun) (hDeadline : begun.deadline = none)
    (hIdle : begun.cycle = none) (hSplit : timed = before ++ (now, s) :: after)
    (hStart : .startCycle ∈ begun.effectsAt (before.map Prod.snd) s) : begun.StartCause before now s := by
  obtain ⟨o, told, next, hRun, hStep⟩ := exists_step_of_mem_effectsAt hStart
  have hFilter := run_filter hRun
  generalize begun.effectsAt (before.map Prod.snd) s = done at hStep hStart
  cases startsCycle_of_step hStep hStart with
  | timer =>
    obtain ⟨deadline, hArmed, hPassed⟩ := h.onTime before now .due after o told hSplit hRun
    apply StartCause.timer
    intro p hp hCounts
    have hWaits := h.waits hCoherent hDeadline hSplit hRun deadline hArmed p hp (by rwa [hFilter])
    rw [run_debounce hRun] at hWaits
    exact Nat.le_trans hWaits hPassed
  | followUp hCycle _ hPhase =>
    obtain ⟨first, s₀, rest, hSignals, hBegan, hEnd⟩ := exists_start_of_cycle hIdle hRun hCycle
    obtain ⟨earlier, later, rfl, rfl, hLater⟩ := List.map_eq_append_iff.mp hSignals
    obtain ⟨⟨time, _⟩, during, rfl, rfl, rfl⟩ := List.map_eq_cons_iff.mp hLater
    rw [hSignals] at hRun
    obtain ⟨reached, _, began, _, hEarlier, hFirst, hRest⟩ := exists_step_of_run hRun
    have hStarts := startsCycle_of_step hFirst hBegan
    have hBeganCoherent := (hCoherent.of_run_step hEarlier hFirst).step hFirst hStarts.ne_panic
    have hWaiting := (run_of_cycle hBeganCoherent hStarts.cycle hRest hEnd).2.2.mp hPhase
    rw [hStarts.phase, run_filter (run_concat hEarlier hFirst)] at hWaiting
    refine .followUp rfl hBegan (fun p hp => hEnd p.2 (List.mem_map_of_mem hp)) ?_
    simpa using hWaiting

end Orchestrator

end ClientRegistry.Watch
