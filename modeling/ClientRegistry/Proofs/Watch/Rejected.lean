import ClientRegistry.Proofs.Watch.Clock
import ClientRegistry.Proofs.Watch.Timing

/-!
# Rejected changes leave no trace

A change that the filter rejects is told of and does nothing else, in whatever phase it comes. So two runs
that differ in such changes alone go through the same states at the same times, and start the same cycles.
-/

set_option autoImplicit false

namespace ClientRegistry.Watch

variable {ρ : Type}

def Signal.isRejected (f : Filter) : Signal ρ → Bool
  | .change _ c => !f.accepts c
  | _ => false

def heeded (f : Filter) (signals : List (Signal ρ)) : List (Signal ρ) := signals.filter fun s => !s.isRejected f

def heededTimed (f : Filter) (timed : List (Nat × Signal ρ)) : List (Nat × Signal ρ) :=
  timed.filter fun p => !p.2.isRejected f

/-- The rejected changes come while changes are taken: before the close and before a panic. -/
def ComesInTime (f : Filter) (signals : List (Signal ρ)) : Prop :=
  ∀ before s after, signals = before ++ s :: after → s.isRejected f = true →
    .closed ∉ before ∧ .ended .panic ∉ before

structure Moment (ρ : Type) where
  time : Nat
  signal : Signal ρ
  effects : List Effect
  after : Orchestrator ρ

section

variable {f : Filter} {s : Signal ρ} {signals before after : List (Signal ρ)}

theorem isRejected_iff : s.isRejected f = true ↔ ∃ now c, s = .change now c ∧ f.accepts c = false := by
  cases s <;> simp [Signal.isRejected]

theorem heeded_cons_of_rejected (h : s.isRejected f = true) (signals : List (Signal ρ)) :
    heeded f (s :: signals) = heeded f signals :=
  List.filter_cons_of_neg (by simp [h])

theorem heeded_cons_of_heeded (h : s.isRejected f = false) (signals : List (Signal ρ)) :
    heeded f (s :: signals) = s :: heeded f signals :=
  List.filter_cons_of_pos (by simp [h])

theorem heeded_append (f : Filter) (a b : List (Signal ρ)) : heeded f (a ++ b) = heeded f a ++ heeded f b :=
  List.filter_append a b

theorem map_heededTimed (f : Filter) (timed : List (Nat × Signal ρ)) :
    (heededTimed f timed).map Prod.snd = heeded f (timed.map Prod.snd) := by
  rw [heededTimed, heeded, List.filter_map]
  rfl

theorem ComesInTime.of_append (h : ComesInTime f (before ++ after)) : ComesInTime f before := by
  rintro earlier s later rfl
  exact h earlier s (later ++ after) (by simp)

end

namespace Orchestrator

variable {o next last : Orchestrator ρ} {s : Signal ρ} {signals before after : List (Signal ρ)}
  {effects told : List Effect}

theorem exists_step_of_rejected (hRejected : s.isRejected o.filter = true) (hOpen : o.isOpen = true)
    (hLost : o.lost = false) : ∃ line, o.step s = some (o, [.tell line]) := by
  obtain ⟨now, c, rfl, hAccepts⟩ := isRejected_iff.mp hRejected
  exact ⟨_, step_eq_some_iff.mpr ⟨hLost, .ignored hOpen hAccepts⟩⟩

theorem step_of_rejected (hRejected : s.isRejected o.filter = true) (hStep : o.step s = some (next, effects)) :
    next = o ∧ (∃ line, effects = [.tell line]) ∧ o.isOpen = true ∧ o.lost = false := by
  obtain ⟨now, c, rfl, hAccepts⟩ := isRejected_iff.mp hRejected
  obtain ⟨hLost, hMove⟩ := step_eq_some_iff.mp hStep
  cases hMove with
  | ignored hOpen => exact ⟨rfl, ⟨_, rfl⟩, hOpen, hLost⟩
  | armed _ hAccepted => exact absurd (hAccepts.symm.trans hAccepted) nofun
  | noted _ hAccepted => exact absurd (hAccepts.symm.trans hAccepted) nofun

/-! ### Runs -/

theorem run_heeded (hRun : o.run signals = some (last, effects)) :
    ∃ told, o.run (heeded o.filter signals) = some (last, told) := by
  induction signals generalizing o effects with
  | nil => exact ⟨effects, hRun⟩
  | cons s rest ih =>
    obtain ⟨next, first, more, hStep, hRest, rfl⟩ := run_cons_eq_some_iff.mp hRun
    obtain ⟨told, hTold⟩ := ih hRest
    rw [step_filter hStep] at hTold
    cases hRejected : s.isRejected o.filter with
    | true =>
      rw [(step_of_rejected hRejected hStep).1] at hTold
      exact ⟨told, by rwa [heeded_cons_of_rejected hRejected]⟩
    | false =>
      rw [heeded_cons_of_heeded hRejected]
      exact ⟨first ++ told, run_cons_eq_some_iff.mpr ⟨next, first, told, hStep, hTold, rfl⟩⟩

theorem comesInTime_of_run (hRun : o.run signals = some (last, effects)) : ComesInTime o.filter signals := by
  rintro before s after rfl hRejected
  obtain ⟨reached, told, _, _, hBefore, hStep, -⟩ := exists_step_of_run hRun
  rw [← run_filter hBefore] at hRejected
  obtain ⟨-, -, hOpen, hLost⟩ := step_of_rejected hRejected hStep
  have hKept : ¬reached.lost = true := by simp [hLost]
  rw [run_lost_iff hBefore, not_or] at hKept
  exact ⟨((run_isOpen_iff hBefore).mp hOpen).2, hKept.2⟩

theorem run_of_heeded (hOpen : o.isOpen = true) (hLost : o.lost = false)
    (hInTime : ComesInTime o.filter signals)
    (hRun : o.run (heeded o.filter signals) = some (last, effects)) :
    ∃ told, o.run signals = some (last, told) := by
  induction signals using List.reverseRecOn generalizing last effects with
  | nil => exact ⟨effects, hRun⟩
  | append_singleton before s ih =>
    rw [heeded_append] at hRun
    obtain ⟨reached, first, more, hBefore, hLast, rfl⟩ := run_append_eq_some_iff.mp hRun
    obtain ⟨told, hTold⟩ := ih hInTime.of_append hBefore
    cases hRejected : s.isRejected o.filter with
    | true =>
      obtain ⟨hNotClosed, hNoPanic⟩ := hInTime before s [] rfl hRejected
      have hStillOpen : reached.isOpen = true := (run_isOpen_iff hTold).mpr ⟨hOpen, hNotClosed⟩
      have hKept : reached.lost = false := by
        rw [← Bool.not_eq_true, run_lost_iff hTold, hLost]
        simpa using hNoPanic
      rw [heeded_cons_of_rejected hRejected] at hLast
      cases hLast
      obtain ⟨line, hStep⟩ := exists_step_of_rejected (by rwa [run_filter hTold]) hStillOpen hKept
      exact ⟨_, run_concat hTold hStep⟩
    | false =>
      rw [heeded_cons_of_heeded hRejected] at hLast
      obtain ⟨next, done, _, hStep, hNil, -⟩ := run_cons_eq_some_iff.mp hLast
      cases hNil
      exact ⟨_, run_concat hTold hStep⟩

theorem run_heeded_iff (hOpen : o.isOpen = true) (hLost : o.lost = false) :
    (∃ effects, o.run signals = some (last, effects)) ↔
      (∃ effects, o.run (heeded o.filter signals) = some (last, effects)) ∧ ComesInTime o.filter signals := by
  constructor
  · rintro ⟨effects, hRun⟩
    exact ⟨run_heeded hRun, comesInTime_of_run hRun⟩
  · rintro ⟨⟨effects, hRun⟩, hInTime⟩
    exact run_of_heeded hOpen hLost hInTime hRun

/-! ### Moments -/

def history (o : Orchestrator ρ) : List (Nat × Signal ρ) → List (Moment ρ)
  | [] => []
  | (now, s) :: rest =>
    match o.step s with
    | some (next, effects) => ⟨now, s, effects, next⟩ :: next.history rest
    | none => []

variable {timed : List (Nat × Signal ρ)}

def atEnd (o : Orchestrator ρ) (moments : List (Moment ρ)) : Orchestrator ρ :=
  (moments.getLast?.map Moment.after).getD o

theorem atEnd_cons (o : Orchestrator ρ) (m : Moment ρ) (moments : List (Moment ρ)) :
    o.atEnd (m :: moments) = m.after.atEnd moments := by
  cases h : moments.getLast? <;> simp [atEnd, List.getLast?_cons, h]

theorem history_of_run (hRun : o.run (timed.map Prod.snd) = some (last, effects)) :
    (o.history timed).map (fun m => (m.time, m.signal)) = timed ∧
      (o.history timed).flatMap Moment.effects = effects ∧ o.atEnd (o.history timed) = last := by
  induction timed generalizing o effects with
  | nil =>
    cases hRun
    exact ⟨rfl, rfl, rfl⟩
  | cons p rest ih =>
    obtain ⟨now, s⟩ := p
    obtain ⟨next, first, more, hStep, hRest, rfl⟩ := run_cons_eq_some_iff.mp hRun
    obtain ⟨hSignals, hEffects, hLast⟩ := ih hRest
    have hHistory : o.history ((now, s) :: rest) = ⟨now, s, first, next⟩ :: next.history rest := by
      rw [history, hStep]
    rw [hHistory, List.map_cons, List.flatMap_cons, atEnd_cons, hSignals, hEffects, hLast]
    exact ⟨rfl, rfl, rfl⟩

theorem history_heeded (hRun : o.run (timed.map Prod.snd) = some (last, effects)) :
    (o.history timed).filter (fun m => !m.signal.isRejected o.filter) = o.history (heededTimed o.filter timed) := by
  induction timed generalizing o effects with
  | nil => rfl
  | cons p rest ih =>
    obtain ⟨now, s⟩ := p
    obtain ⟨next, first, more, hStep, hRest, rfl⟩ := run_cons_eq_some_iff.mp hRun
    have hNext := ih hRest
    rw [step_filter hStep] at hNext
    cases hRejected : s.isRejected o.filter with
    | true =>
      obtain ⟨rfl, -⟩ := step_of_rejected hRejected hStep
      simpa [history, hStep, heededTimed, hRejected] using hNext
    | false => simpa [history, hStep, heededTimed, hRejected] using hNext

theorem history_of_rejected {earlier later : List (Moment ρ)} {m : Moment ρ}
    (hHistory : o.history timed = earlier ++ m :: later) (hRejected : m.signal.isRejected o.filter = true) :
    m.after = o.atEnd earlier ∧ ∃ line, m.effects = [.tell line] := by
  induction timed generalizing o earlier with
  | nil => simp [history] at hHistory
  | cons p rest ih =>
    obtain ⟨now, s⟩ := p
    cases hStep : o.step s with
    | none => simp [history, hStep] at hHistory
    | some reached =>
      obtain ⟨next, effects⟩ := reached
      rw [history, hStep] at hHistory
      cases earlier with
      | nil =>
        obtain ⟨rfl, -⟩ := List.cons.inj hHistory
        obtain ⟨rfl, hTold, -⟩ := step_of_rejected hRejected hStep
        exact ⟨rfl, hTold⟩
      | cons first earlier =>
        obtain ⟨rfl, hRest⟩ := List.cons.inj hHistory
        rw [atEnd_cons]
        exact ih hRest (by rwa [step_filter hStep])

/-! ### Runs on a clock -/

theorem heededTimed_append (f : Filter) (a b : List (Nat × Signal ρ)) :
    heededTimed f (a ++ b) = heededTimed f a ++ heededTimed f b :=
  List.filter_append a b

theorem heededTimed_cons_of_heeded {f : Filter} (h : s.isRejected f = false) (now : Nat)
    (timed : List (Nat × Signal ρ)) : heededTimed f ((now, s) :: timed) = (now, s) :: heededTimed f timed :=
  List.filter_cons_of_pos (by simp [h])

/-- What comes before a heeded signal in the one list, comes before it in the other. -/
theorem exists_split_of_heededTimed {f : Filter} {before after : List (Nat × Signal ρ)} {p : Nat × Signal ρ}
    (h : heededTimed f timed = before ++ p :: after) :
    ∃ earlier later, timed = earlier ++ p :: later ∧ heededTimed f earlier = before := by
  obtain ⟨first, rest, rfl, hFirst, hRest⟩ := List.filter_eq_append_iff.mp h
  obtain ⟨skipped, later, rfl, hSkipped, -, -⟩ := List.filter_eq_cons_iff.mp hRest
  refine ⟨first ++ skipped, later, (List.append_assoc ..).symm, ?_⟩
  rw [heededTimed_append]
  have hNone : heededTimed f skipped = [] := List.filter_eq_nil_iff.mpr hSkipped
  rw [hNone, List.append_nil]
  exact hFirst

theorem Clocked.heeded (h : Clocked o timed) : Clocked o (heededTimed o.filter timed) := by
  obtain ⟨last, effects, hRun⟩ := h.runs
  constructor
  · obtain ⟨told, hTold⟩ := run_heeded hRun
    exact ⟨last, told, by rwa [map_heededTimed]⟩
  · exact h.ordered.sublist (List.filter_sublist.map Prod.fst)
  · intro before now s after reached told hSplit hBefore
    obtain ⟨earlier, later, rfl, rfl⟩ := exists_split_of_heededTimed hSplit
    rw [List.map_append, List.map_cons] at hRun
    obtain ⟨found, earlierTold, _, _, hEarlier, -, -⟩ := exists_step_of_run hRun
    obtain ⟨_, hSame⟩ := run_heeded hEarlier
    rw [map_heededTimed, hSame] at hBefore
    obtain ⟨rfl, -⟩ := Prod.mk.inj (Option.some.inj hBefore)
    exact h.onTime earlier now s later found earlierTold rfl hEarlier

theorem Clocked.of_heeded (hOpen : o.isOpen = true) (hLost : o.lost = false)
    (h : Clocked o (heededTimed o.filter timed)) (hInTime : ComesInTime o.filter (timed.map Prod.snd))
    (hOrdered : (timed.map Prod.fst).Pairwise (· ≤ ·))
    (hTimes : ∀ p ∈ timed, p.2.isRejected o.filter = true → p.2.CanCome p.1 o) : Clocked o timed := by
  refine ⟨?_, hOrdered, ?_⟩
  · obtain ⟨last, effects, hRun⟩ := h.runs
    rw [map_heededTimed] at hRun
    obtain ⟨told, hTold⟩ := run_of_heeded hOpen hLost hInTime hRun
    exact ⟨last, told, hTold⟩
  · rintro before now s after reached told rfl hBefore
    cases hRejected : s.isRejected o.filter with
    | true =>
      have hNow := hTimes (now, s) (by simp) hRejected
      obtain ⟨time, c, rfl, -⟩ := isRejected_iff.mp hRejected
      exact hNow
    | false =>
      obtain ⟨_, hSame⟩ := run_heeded hBefore
      rw [← map_heededTimed] at hSame
      refine h.onTime _ now s (heededTimed o.filter after) reached _ ?_ hSame
      rw [heededTimed_append, heededTimed_cons_of_heeded hRejected]

theorem Clocked.canCome_of_mem (h : Clocked o timed) {p : Nat × Signal ρ} (hp : p ∈ timed)
    (hRejected : p.2.isRejected o.filter = true) : p.2.CanCome p.1 o := by
  obtain ⟨now, s⟩ := p
  obtain ⟨before, after, rfl⟩ := List.append_of_mem hp
  obtain ⟨last, effects, hRun⟩ := h.runs
  rw [List.map_append, List.map_cons] at hRun
  obtain ⟨reached, told, _, _, hBefore, -, -⟩ := exists_step_of_run hRun
  have hNow := h.onTime before now s after reached told rfl hBefore
  obtain ⟨time, c, rfl, -⟩ := isRejected_iff.mp hRejected
  exact hNow

theorem clocked_heeded_iff (hOpen : o.isOpen = true) (hLost : o.lost = false) :
    Clocked o timed ↔ Clocked o (heededTimed o.filter timed) ∧ ComesInTime o.filter (timed.map Prod.snd) ∧
      (timed.map Prod.fst).Pairwise (· ≤ ·) ∧
        ∀ p ∈ timed, p.2.isRejected o.filter = true → p.2.CanCome p.1 o := by
  constructor
  · intro h
    obtain ⟨last, effects, hRun⟩ := h.runs
    exact ⟨h.heeded, comesInTime_of_run hRun, h.ordered, fun p hp => h.canCome_of_mem hp⟩
  · rintro ⟨hHeeded, hInTime, hOrdered, hTimes⟩
    exact hHeeded.of_heeded hOpen hLost hInTime hOrdered hTimes

/-- Where nothing is owed, no cycle starts without a change that counts. -/
theorem not_startCycle_of_not_counts (h : Coherent o) (hOwes : ¬o.Owes) (hRun : o.run signals = some (last, effects))
    (hCounts : ∀ s ∈ signals, s.counts o.filter = false) : .startCycle ∉ effects := by
  have hPaid := count_startCycle_le h hOwes hRun
  have hNone : signals.countP (Signal.counts o.filter) = 0 := by
    rw [List.countP_eq_zero]
    intro s hs
    simp [hCounts s hs]
  apply List.count_eq_zero.mp
  omega

end Orchestrator

/-! ### Runs without time for cycles -/

def Occurrence.isDoing : Occurrence → Bool
  | .cycle => true
  | .reload _ => true
  | _ => false

def SenderStep.isHeeded (f : Filter) : SenderStep → Bool
  | .send c => f.accepts c
  | .sleep _ => true

def CyclePlan.heeded (f : Filter) (p : CyclePlan) : CyclePlan := { p with during := p.during.filter f.accepts }

namespace Timeline

def doings (t : Timeline) : List (Nat × Occurrence) := t.trace.filter fun entry => entry.2.isDoing

/-- Two timelines that differ only in what is sent and told. -/
structure SameCourse (f : Filter) (t t' : Timeline) : Prop where
  sameFilter : t.orchestrator.filter = f
  orchestrator : t'.orchestrator = t.orchestrator
  now : t'.now = t.now
  doings : t'.doings = t.doings

variable {f : Filter} {t t' : Timeline} {plans : List CyclePlan} {c : Change}

theorem doings_note (t : Timeline) (o : Occurrence) :
    (t.note o).doings = t.doings ++ if o.isDoing then [(t.now, o)] else [] := by
  rw [doings, note, List.filter_append]
  cases h : o.isDoing <;> simp [doings, h]

theorem plan_heeded (f : Filter) (plans : List CyclePlan) (count : Nat) :
    (plans.map (CyclePlan.heeded f))[count]?.getD CyclePlan.plain =
      (plans[count]?.getD CyclePlan.plain).heeded f := by
  rw [List.getElem?_map]
  cases plans[count]? <;> rfl

namespace SameCourse

theorem trans {t'' : Timeline} (h : SameCourse f t t') (h' : SameCourse f t' t'') : SameCourse f t t'' :=
  ⟨h.sameFilter, h'.orchestrator.trans h.orchestrator, h'.now.trans h.now, h'.doings.trans h.doings⟩

theorem note (h : SameCourse f t t') (o : Occurrence) : SameCourse f (t.note o) (t'.note o) := by
  refine ⟨h.sameFilter, h.orchestrator, h.now, ?_⟩
  rw [doings_note, doings_note, h.doings, h.now]

/-- What the sender sees is no doing of the orchestrator. -/
theorem note_left (h : SameCourse f t t') {o : Occurrence} (hDoing : o.isDoing = false) :
    SameCourse f (t.note o) t' := by
  refine ⟨h.sameFilter, h.orchestrator, h.now, ?_⟩
  rw [doings_note, h.doings]
  simp [hDoing]

theorem moved (h : SameCourse f t t') (now : Nat) : SameCourse f { t with now := now } { t' with now := now } :=
  ⟨h.sameFilter, h.orchestrator, rfl, h.doings⟩

theorem perform (h : SameCourse f t t') (effects : List Effect) :
    SameCourse f (effects.foldl Timeline.perform t) (effects.foldl Timeline.perform t') := by
  induction effects generalizing t t' with
  | nil => exact h
  | cons e rest ih =>
    apply ih
    cases e with
    | tell line => exact ⟨h.sameFilter, h.orchestrator, h.now, h.doings⟩
    | startCycle => exact h.note .cycle
    | reload r => exact h.note (.reload r)

theorem signal (h : SameCourse f t t') (s : Signal Nat) : SameCourse f (t.signal s) (t'.signal s) := by
  rw [Timeline.signal, Timeline.signal, h.orchestrator]
  cases hStep : t.orchestrator.step s with
  | none => exact h
  | some result =>
    obtain ⟨next, effects⟩ := result
    apply perform
    exact ⟨(Orchestrator.step_filter hStep).trans h.sameFilter, rfl, h.now, h.doings⟩

theorem change (h : SameCourse f t t') (c : Change) : SameCourse f (t.change c) (t'.change c) := by
  rw [Timeline.change, Timeline.change, h.now]
  exact h.signal _

theorem change_left (h : SameCourse f t t') (hRejected : f.accepts c = false) : SameCourse f (t.change c) t' := by
  rw [Timeline.change, Timeline.signal]
  cases hStep : t.orchestrator.step (.change t.now c) with
  | none => exact h
  | some result =>
    obtain ⟨next, effects⟩ := result
    obtain ⟨rfl, ⟨line, rfl⟩, -⟩ := Orchestrator.step_of_rejected
      (by simp [Signal.isRejected, h.sameFilter, hRejected]) hStep
    exact ⟨h.sameFilter, h.orchestrator, h.now, h.doings⟩

theorem changes (h : SameCourse f t t') (during : List Change) :
    SameCourse f (during.foldl Timeline.change t) ((during.filter f.accepts).foldl Timeline.change t') := by
  induction during generalizing t t' with
  | nil => exact h
  | cons c rest ih =>
    cases hAccepts : f.accepts c with
    | true =>
      rw [List.filter_cons_of_pos hAccepts]
      exact ih (h.change c)
    | false =>
      rw [List.filter_cons_of_neg (by simp [hAccepts])]
      exact ih (h.change_left hAccepts)

theorem runCycles (h : SameCourse f t t') (plans : List CyclePlan) (steps : Nat) :
    SameCourse f (runCycles plans steps t) (runCycles (plans.map (CyclePlan.heeded f)) steps t') := by
  induction steps generalizing t t' with
  | zero => exact h
  | succ steps ih =>
    rw [Timeline.runCycles, Timeline.runCycles, h.orchestrator]
    split
    · exact h
    · rw [plan_heeded]
      apply ih
      exact (h.changes _).signal _

theorem due (h : SameCourse f t t') (plans : List CyclePlan) :
    SameCourse f (t.due plans) (t'.due (plans.map (CyclePlan.heeded f))) := by
  rw [Timeline.due, Timeline.due, List.length_map]
  exact (h.signal .due).runCycles plans _

theorem advance (h : SameCourse f t t') (plans : List CyclePlan) (time : Nat) :
    SameCourse f (t.advance plans time) (t'.advance (plans.map (CyclePlan.heeded f)) time) := by
  have hDeadline : t'.orchestrator.deadline = t.orchestrator.deadline := congrArg Orchestrator.deadline h.orchestrator
  rw [Timeline.advance, Timeline.advance, hDeadline]
  split
  · split
    · exact ((h.moved _).due plans).moved time
    · exact h.moved time
  · exact h.moved time

theorem senderStep (h : SameCourse f t t') (plans : List CyclePlan) (step : SenderStep) :
    SameCourse f (t.senderStep plans step) (t'.senderStep (plans.map (CyclePlan.heeded f)) step) := by
  cases step with
  | send c =>
    rw [Timeline.senderStep, Timeline.senderStep, h.orchestrator]
    split
    · exact h.note .refused
    · exact (h.note .sent).change c
  | sleep time =>
    rw [Timeline.senderStep, Timeline.senderStep, h.now]
    exact h.advance plans _

theorem send_left (h : SameCourse f t t') (plans : List CyclePlan) (hRejected : f.accepts c = false) :
    SameCourse f (t.senderStep plans (.send c)) t' := by
  rw [Timeline.senderStep]
  split
  · exact h.note_left rfl
  · exact (h.note_left rfl).change_left hRejected

theorem senderSteps (h : SameCourse f t t') (plans : List CyclePlan) (steps : List SenderStep) :
    SameCourse f (steps.foldl (Timeline.senderStep plans) t)
      ((steps.filter (SenderStep.isHeeded f)).foldl
        (Timeline.senderStep (plans.map (CyclePlan.heeded f))) t') := by
  induction steps generalizing t t' with
  | nil => exact h
  | cons step rest ih =>
    cases hHeeded : step.isHeeded f with
    | true =>
      rw [List.filter_cons_of_pos hHeeded]
      exact ih (h.senderStep plans step)
    | false =>
      rw [List.filter_cons_of_neg (by simp [hHeeded])]
      cases step with
      | send c => exact ih (h.send_left plans hHeeded)
      | sleep time => cases hHeeded

theorem finish (h : SameCourse f t t') (plans : List CyclePlan) :
    SameCourse f (t.finish plans) (t'.finish (plans.map (CyclePlan.heeded f))) := by
  have hClosed := h.signal .closed
  have hDeadline := congrArg Orchestrator.deadline hClosed.orchestrator
  rw [Timeline.finish, Timeline.finish, hDeadline]
  split
  · exact (hClosed.moved _).due plans
  · exact hClosed

end SameCourse

end Timeline

/-! ### All runs -/

structure OverlooksRejected (f : Filter) (begun : Orchestrator ρ) : Prop where
  /-- Rejected changes can be put in wherever changes are taken, and be left out, with the same end. -/
  runs : ∀ signals last, (∃ effects, begun.run signals = some (last, effects)) ↔
    (∃ effects, begun.run (heeded f signals) = some (last, effects)) ∧ ComesInTime f signals
  /-- The history of a run has all its signals, all that is done and the state at its end. -/
  recorded : ∀ timed last effects, begun.run (timed.map Prod.snd) = some (last, effects) →
    (begun.history timed).map (fun m => (m.time, m.signal)) = timed ∧
      (begun.history timed).flatMap Moment.effects = effects ∧ begun.atEnd (begun.history timed) = last
  /-- All that happens on the other signals, each state and what is done at each time, is the same without them. -/
  moments : ∀ timed last effects, begun.run (timed.map Prod.snd) = some (last, effects) →
    (begun.history timed).filter (fun m => !m.signal.isRejected f) = begun.history (heededTimed f timed)
  /-- On a rejected change nothing is done but to tell of it. -/
  standstill : ∀ timed earlier m later, begun.history timed = earlier ++ m :: later →
    m.signal.isRejected f = true → m.after = begun.atEnd earlier ∧ ∃ line, m.effects = [.tell line]
  clocked : ∀ timed, begun.Clocked timed ↔ begun.Clocked (heededTimed f timed) ∧
    ComesInTime f (timed.map Prod.snd) ∧ (timed.map Prod.fst).Pairwise (· ≤ ·) ∧
      ∀ p ∈ timed, p.2.isRejected f = true → p.2.CanCome p.1 begun
  /-- A run that has come to where no cycle is due starts none if all changes are rejected then. -/
  alone : ∀ before signals o last told effects, begun.run before = some (o, told) → o.deadline = none →
    o.phase ≠ .regenPending → o.run signals = some (last, effects) →
      (∀ now c, .change now c ∈ signals → f.accepts c = false) → .startCycle ∉ effects

theorem overlooksRejected (f : Filter) (debounce : Nat) (first : ρ) :
    OverlooksRejected f (Orchestrator.start f debounce first) ∧
      ∀ plans steps, Timeline.SameCourse f
          (steps.foldl (Timeline.senderStep plans) (Timeline.start f debounce))
          ((steps.filter (SenderStep.isHeeded f)).foldl (Timeline.senderStep (plans.map (CyclePlan.heeded f)))
            (Timeline.start f debounce)) ∧
        Timeline.SameCourse f (Timeline.play f debounce plans steps)
          (Timeline.play f debounce (plans.map (CyclePlan.heeded f)) (steps.filter (SenderStep.isHeeded f))) := by
  refine ⟨⟨?_, ?_, ?_, ?_, ?_, ?_⟩, ?_⟩
  · intro signals last
    exact Orchestrator.run_heeded_iff rfl rfl
  · intro timed last effects hRun
    exact Orchestrator.history_of_run hRun
  · intro timed last effects hRun
    exact Orchestrator.history_heeded hRun
  · intro timed earlier m later hHistory hRejected
    exact Orchestrator.history_of_rejected hHistory hRejected
  · intro timed
    exact Orchestrator.clocked_heeded_iff rfl rfl
  · intro before signals o last told effects hBefore hDeadline hPhase hRun hRejected
    have hCounts : ∀ s ∈ signals, s.counts o.filter = false := by
      intro s hs
      rw [Orchestrator.run_filter hBefore]
      cases s with
      | change now c => exact hRejected now c hs
      | _ => rfl
    have hOwes : ¬o.Owes := by simp [Orchestrator.Owes, hDeadline, hPhase]
    cases hLost : o.lost with
    | true =>
      obtain ⟨-, -, rfl⟩ := Orchestrator.run_of_lost hLost hRun
      exact List.not_mem_nil
    | false =>
      have hCoherent := (Orchestrator.Coherent.start f debounce first).of_run hBefore hLost
      exact Orchestrator.not_startCycle_of_not_counts hCoherent hOwes hRun hCounts
  · intro plans steps
    have hStart : Timeline.SameCourse f (Timeline.start f debounce) (Timeline.start f debounce) :=
      ⟨rfl, rfl, rfl, rfl⟩
    have hSteps := hStart.senderSteps plans steps
    exact ⟨hSteps, hSteps.finish plans⟩

def distracted : List (Nat × Signal Nat) :=
  [(0, .change 0 ⟨.other, "a.proto"⟩), (0, .change 0 ⟨.created, "a.proto"⟩),
    (50, .change 50 ⟨.modified, "gen/a.proto"⟩), (100, .due), (120, .change 120 ⟨.created, "notes.txt"⟩),
    (150, .change 150 ⟨.modified, "b.proto"⟩), (160, .change 160 ⟨.removed, "/p/gen/b.proto"⟩),
    (170, .ended (.success 1)), (180, .closed), (190, .ended (.failure 2 "no schema"))]

theorem overlooksRejected_distracted :
    (∃ o effects, Orchestrator.counting.run (distracted.map Prod.snd) = some (o, effects)) ∧
      (Orchestrator.counting.history distracted).length = 10 ∧
      (Orchestrator.counting.history distracted).filter
          (fun m => !m.signal.isRejected ⟨"/p", ["gen", "/p/gen"]⟩) =
        Orchestrator.counting.history [(0, .change 0 ⟨.created, "a.proto"⟩), (100, .due),
          (150, .change 150 ⟨.modified, "b.proto"⟩), (170, .ended (.success 1)), (180, .closed),
          (190, .ended (.failure 2 "no schema"))] :=
  ⟨⟨_, _, rfl⟩, rfl, (overlooksRejected ⟨"/p", ["gen", "/p/gen"]⟩ 100 0).1.moments distracted _ _ rfl⟩

end ClientRegistry.Watch
