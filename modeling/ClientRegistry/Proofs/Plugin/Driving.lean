import ClientRegistry.Plugin.Watching
import ClientRegistry.Proofs.Watch.Termination

/-!
# The orchestrator drives a watched project

Watching a project adds nothing to what the orchestrator does. The events come to signals that the
orchestrator takes step by step, and the project changes by the effects of these steps and by what
others do to its file tree. Each start runs a cycle of the plugin's own generator once, on the tree
as it stands, and the orchestrator learns of the ends that these cycles come to, in their order.
-/

set_option autoImplicit false

namespace ClientRegistry

open Watch

def WatchEvent.ofSignal : Signal Generator → WatchEvent
  | .change now c => .change now c
  | .closed => .closed
  | .due => .due
  | .ended _ => .ended

theorem WatchEvent.exists_ofSignal (event : WatchEvent) : (∃ s, .ofSignal s = event) ∨ ∃ t, event = .edited t := by
  cases event with
  | change now c => exact .inl ⟨.change now c, rfl⟩
  | closed => exact .inl ⟨.closed, rfl⟩
  | due => exact .inl ⟨.due, rfl⟩
  | ended => exact .inl ⟨.ended .panic, rfl⟩
  | edited t => exact .inr ⟨t, rfl⟩

structure Progress where
  tree : FileTree
  log : Log
  reloads : List Reload
  cycles : List (Except GenerationError Generation)

namespace Progress

def perform (g : Generator) (h : Host) (r : Receiver) (x : Progress) : Effect → Progress
  | .tell line => { x with log := x.log ++ [line] }
  | .startCycle =>
    let done := (g.generate h).run x.tree
    { x with tree := done.tree, log := x.log ++ done.log, cycles := x.cycles ++ [done.result] }
  | .reload signal =>
    if r.listens then { x with reloads := x.reloads ++ [signal] }
    else { x with log := x.log ++ [Log.debug r.sink.unheard] }

def onTree (x : Progress) (t : FileTree) : Progress := { x with tree := t }

def watched (x : Progress) (result : Except GenerationError Unit) : Watched := ⟨x.tree, x.log, x.reloads, result⟩

end Progress

/-- The orchestrator takes the signals that the events come to, and the project goes on by the effects
of its steps. -/
inductive Drives (g : Generator) (h : Host) (r : Receiver) :
    Orchestrator Generator → Progress → List WatchEvent → List (Signal Generator) → Orchestrator Generator →
      Progress → Prop where
  | finished (o : Orchestrator Generator) (x : Progress) : Drives g h r o x [] [] o x
  | taken {o next last : Orchestrator Generator} {x y : Progress} {s : Signal Generator} {effects : List Effect}
      {events : List WatchEvent} {signals : List (Signal Generator)} (hStep : o.step s = some (next, effects))
      (hRest : Drives g h r next (effects.foldl (Progress.perform g h r) x) events signals last y) :
      Drives g h r o x (.ofSignal s :: events) (s :: signals) last y
  /-- No signal of this event can come now. -/
  | passed {o last : Orchestrator Generator} {x y : Progress} {s : Signal Generator}
      {events : List WatchEvent} {signals : List (Signal Generator)}
      (hNone : ∀ s', WatchEvent.ofSignal s' = .ofSignal s → o.step s' = none)
      (hRest : Drives g h r o x events signals last y) : Drives g h r o x (.ofSignal s :: events) signals last y
  | edited {o last : Orchestrator Generator} {x y : Progress} {t : FileTree} {events : List WatchEvent}
      {signals : List (Signal Generator)} (hRest : Drives g h r o (x.onTree t) events signals last y) :
      Drives g h r o x (.edited t :: events) signals last y

section

variable {g : Generator} {h : Host} {r : Receiver} {o next last : Orchestrator Generator} {x y before : Progress}
  {w : Watching} {s : Signal Generator} {e : Effect} {event : WatchEvent} {effects : List Effect}
  {events : List WatchEvent} {signals heard : List (Signal Generator)}

/-! ### The cycles of a project that is driven -/

theorem Progress.exists_cycles_perform (g : Generator) (h : Host) (r : Receiver) (x : Progress) (e : Effect) :
    ∃ more, (x.perform g h r e).cycles = x.cycles ++ more ∧ more.length = [e].count .startCycle := by
  cases e with
  | tell line => exact ⟨[], (List.append_nil _).symm, rfl⟩
  | startCycle => exact ⟨[((g.generate h).run x.tree).result], rfl, rfl⟩
  | reload signal =>
    refine ⟨[], ?_, rfl⟩
    rw [List.append_nil, Progress.perform]
    split <;> rfl

/-- As many cycles run as effects start one. -/
theorem Progress.exists_cycles_foldl (g : Generator) (h : Host) (r : Receiver) (x : Progress) (effects : List Effect) :
    ∃ more, (effects.foldl (Progress.perform g h r) x).cycles = x.cycles ++ more ∧
      more.length = effects.count .startCycle := by
  induction effects generalizing x with
  | nil => exact ⟨[], (List.append_nil _).symm, rfl⟩
  | cons e rest ih =>
    obtain ⟨first, hFirst, hOne⟩ := Progress.exists_cycles_perform g h r x e
    obtain ⟨more, hMore, hCount⟩ := ih (x.perform g h r e)
    refine ⟨first ++ more, ?_, ?_⟩
    · rw [List.foldl_cons, hMore, hFirst, List.append_assoc]
    · rw [List.length_append, hOne, hCount, ← List.count_append, List.singleton_append]

theorem Drives.run (hDrives : Drives g h r o x events signals last y) :
    ∃ effects more, o.run signals = some (last, effects) ∧ y.cycles = x.cycles ++ more ∧
      more.length = effects.count .startCycle := by
  induction hDrives with
  | finished o x => exact ⟨[], [], rfl, (List.append_nil _).symm, rfl⟩
  | @taken o next last x y s effects events signals hStep hRest ih =>
    obtain ⟨later, more, hRun, hCycles, hCount⟩ := ih
    obtain ⟨first, hFirst, hOne⟩ := Progress.exists_cycles_foldl g h r x effects
    refine ⟨effects ++ later, first ++ more, Orchestrator.run_cons_eq_some_iff.mpr ⟨_, _, _, hStep, hRun, rfl⟩, ?_, ?_⟩
    · rw [hCycles, hFirst, List.append_assoc]
    · rw [List.length_append, hOne, hCount, List.count_append]
  | passed _ _ ih => exact ih
  | edited _ ih => exact ih

/-! ### The generator of an orchestrator -/

def Watch.Orchestrator.Uses (o : Orchestrator Generator) (g : Generator) : Prop :=
  ∀ v, o.regenerator = some v ∨ o.cycle = some v → v = g

theorem Watch.Orchestrator.Uses.step (hUses : o.Uses g) (hStep : o.step s = some (next, effects))
    (hReturned : ∀ v, s.returned? = some v → v = g) : next.Uses g := by
  obtain ⟨-, hMove⟩ := Orchestrator.step_eq_some_iff.mp hStep
  intro v hv
  cases hMove with
  | ignored | armed | noted | closed => exact hUses v hv
  | started _ hHeld =>
    obtain hNone | hCycle := hv
    · cases hNone
    · exact hUses v (.inl (hHeld.trans hCycle))
  | missed _ hHeld =>
    obtain hHolds | hNone := hv
    · exact hUses v (.inl hHolds)
    · cases hNone
  | rested _ hBack =>
    obtain hHolds | hNone := hv
    · exact hReturned v (hBack.trans hHolds)
    · cases hNone
  | followed _ hBack =>
    obtain hNone | hCycle := hv
    · cases hNone
    · exact hReturned v (hBack.trans hCycle)
  | panicked =>
    obtain hHolds | hNone := hv
    · exact hUses v (.inl hHolds)
    · cases hNone

/-! ### Watching -/

namespace Watching

def running (w : Watching) : List (CycleEnd Generator) :=
  if w.orchestrator.cycle.isSome then w.pending.toList else []

theorem returned?_cycleEnd (g : Generator) (result : Except GenerationError Generation) :
    (cycleEnd g result).returned? = some g := by
  cases result <;> rfl

structure Shows (before x : Progress) (w : Watching) : Prop where
  tree : w.tree = x.tree
  log : x.log = before.log ++ w.log
  reloads : x.reloads = before.reloads ++ w.reloads

theorem Shows.perform (hShows : Shows before x w) (hCycle : e = .startCycle → w.orchestrator.cycle = some g) :
    Shows before (x.perform g h r e) (w.perform h r e) := by
  obtain ⟨hTree, hLog, hReloads⟩ := hShows
  cases e with
  | tell line => exact ⟨hTree, by simp [Progress.perform, Watching.perform, tell, hLog], hReloads⟩
  | startCycle =>
    refine ⟨?_, ?_, ?_⟩
    all_goals simp [Progress.perform, Watching.perform, runCycle, hCycle rfl, hTree, hLog, hReloads]
  | reload signal =>
    rw [Progress.perform, Watching.perform]
    by_cases hListens : r.listens = true
    · rw [if_pos hListens, if_pos hListens]
      exact ⟨hTree, hLog, by simp [hReloads]⟩
    · rw [if_neg hListens, if_neg hListens]
      exact ⟨hTree, by simp [tell, hLog], hReloads⟩

@[simp] theorem orchestrator_perform (h : Host) (r : Receiver) (w : Watching) (e : Effect) :
    (w.perform h r e).orchestrator = w.orchestrator := by
  cases e with
  | tell line => rfl
  | startCycle =>
    rw [perform, runCycle]
    split <;> rfl
  | reload signal =>
    rw [perform]
    split <;> rfl

theorem orchestrator_foldl (h : Host) (r : Receiver) (w : Watching) (effects : List Effect) :
    (effects.foldl (perform h r) w).orchestrator = w.orchestrator := by
  induction effects generalizing w with
  | nil => rfl
  | cons e rest ih => rw [List.foldl_cons, ih, orchestrator_perform]

theorem Shows.foldl (hShows : Shows before x w)
    (hCycle : .startCycle ∈ effects → w.orchestrator.cycle = some g) :
    Shows before (effects.foldl (Progress.perform g h r) x) (effects.foldl (Watching.perform h r) w) := by
  induction effects generalizing x w with
  | nil => exact hShows
  | cons e rest ih =>
    refine ih (hShows.perform fun hStart => hCycle (hStart ▸ List.mem_cons_self)) fun hStart => ?_
    rw [orchestrator_perform]
    exact hCycle (List.mem_cons_of_mem _ hStart)

theorem pending_perform (hStart : e ≠ .startCycle) : (w.perform h r e).pending = w.pending := by
  cases e with
  | tell line => rfl
  | startCycle => exact absurd rfl hStart
  | reload signal =>
    rw [perform]
    split <;> rfl

theorem pending_foldl (hStart : .startCycle ∉ effects) :
    (effects.foldl (perform h r) w).pending = w.pending := by
  induction effects generalizing w with
  | nil => rfl
  | cons e rest ih =>
    rw [List.mem_cons, not_or] at hStart
    rw [List.foldl_cons, ih hStart.2, pending_perform (Ne.symm hStart.1)]

theorem cycles_foldl (hStart : .startCycle ∉ effects) :
    (effects.foldl (Progress.perform g h r) x).cycles = x.cycles := by
  obtain ⟨more, hMore, hCount⟩ := Progress.exists_cycles_foldl g h r x effects
  rw [List.count_eq_zero_of_not_mem hStart, List.length_eq_zero_iff] at hCount
  rw [hMore, hCount, List.append_nil]

/-- Effects that end with a start run one cycle, and its end is the one to be told next. -/
theorem exists_result_foldl {told : List Effect} (hShows : Shows before x w) (hCycle : w.orchestrator.cycle = some g)
    (hTold : .startCycle ∉ told) :
    ∃ result, ((told ++ [Effect.startCycle]).foldl (perform h r) w).pending = some (cycleEnd g result) ∧
      ((told ++ [Effect.startCycle]).foldl (Progress.perform g h r) x).cycles = x.cycles ++ [result] := by
  have hTree := (hShows.foldl (g := g) (h := h) (r := r) fun hStart => absurd hStart hTold).tree
  refine ⟨((g.generate h).run (told.foldl (Progress.perform g h r) x).tree).result, ?_, ?_⟩
  · rw [List.foldl_append, List.foldl_cons, List.foldl_nil, perform, runCycle, orchestrator_foldl, hCycle, hTree]
  · rw [List.foldl_append, List.foldl_cons, List.foldl_nil, Progress.perform, cycles_foldl hTold]

structure Follows (g : Generator) (before : Progress) (heard : List (Signal Generator)) (x : Progress)
    (w : Watching) : Prop where
  shows : Shows before x w
  coherent : Orchestrator.Coherent w.orchestrator
  uses : w.orchestrator.Uses g
  /-- The orchestrator has heard how each cycle ends but the one that runs. -/
  ledger : x.cycles.map (cycleEnd g) =
    before.cycles.map (cycleEnd g) ++ (heard.filterMap Signal.end? ++ w.running)
  pending : w.orchestrator.cycle.isSome = true → ∃ result, w.pending = some (cycleEnd g result)

structure Takes (w : Watching) (s : Signal Generator) (next : Orchestrator Generator) (effects : List Effect) :
    Prop where
  step : w.orchestrator.step s = some (next, effects)
  pending : ∀ result, s = .ended result → w.pending = some result

def stepped (w : Watching) (next : Orchestrator Generator) : Watching := { w with orchestrator := next }

theorem running_eq_of_ended (hCycle : w.orchestrator.cycle.isSome = true) {result : CycleEnd Generator}
    (hPending : w.pending = some result) : w.running = [result] := by
  rw [running, if_pos hCycle, hPending, Option.toList_some]

theorem running_eq_nil (hCycle : w.orchestrator.cycle = none) : w.running = [] := by
  rw [running, hCycle]
  rfl

@[simp] theorem foundAfter_ofSignal (w : Watching) (s : Signal Generator) : w.foundAfter (.ofSignal s) = w := by
  cases s <;> rfl

namespace Follows

theorem exists_of_ended (hFollows : Follows g before heard x w) {result : CycleEnd Generator}
    (hTakes : w.Takes (.ended result) next effects) : w.running = [result] ∧ ∃ made, result = cycleEnd g made := by
  have hPending := hTakes.pending result rfl
  have hCycle : w.orchestrator.cycle.isSome = true :=
    (Orchestrator.step_isSome_iff.mp (Option.isSome_of_eq_some hTakes.step)).2
  obtain ⟨made, hMade⟩ := hFollows.pending hCycle
  exact ⟨running_eq_of_ended hCycle hPending, made, Option.some.inj (hPending.symm.trans hMade)⟩

theorem ne_panic (hFollows : Follows g before heard x w) (hTakes : w.Takes s next effects) :
    s ≠ .ended .panic := by
  rintro rfl
  obtain ⟨-, made, hMade⟩ := hFollows.exists_of_ended hTakes
  cases made <;> cases hMade

theorem returned_eq (hFollows : Follows g before heard x w) (hTakes : w.Takes s next effects)
    (v : Generator) (hv : s.returned? = some v) : v = g := by
  cases s with
  | ended result =>
    obtain ⟨-, made, rfl⟩ := hFollows.exists_of_ended hTakes
    exact Option.some.inj (hv.symm.trans (returned?_cycleEnd g made))
  | _ => cases hv

/-- A step that starts a cycle has been told the end of the one that ran, if one did. -/
theorem running_of_starts (hFollows : Follows g before heard x w) (hTakes : w.Takes s next effects)
    (hStart : .startCycle ∈ effects) : w.running = s.end?.toList := by
  cases Orchestrator.startsCycle_of_step hTakes.step hStart with
  | timer hArmed =>
    exact running_eq_nil (hFollows.coherent.idle_iff.mp (hFollows.coherent.armed hArmed))
  | followUp => exact (hFollows.exists_of_ended hTakes).1

theorem running_of_not_starts (hFollows : Follows g before heard x w) (hTakes : w.Takes s next effects)
    (hStart : .startCycle ∉ effects) : w.running = s.end?.toList ++ (w.stepped next).running := by
  obtain ⟨result, rfl, hNone⟩ | ⟨hEnd, hCycle⟩ := Orchestrator.cycle_of_not_starts hFollows.coherent hTakes.step hStart
  · rw [running_eq_nil (w := w.stepped next) hNone, List.append_nil]
    exact (hFollows.exists_of_ended hTakes).1
  · rw [hEnd, Option.toList_none, List.nil_append, running, running, stepped, hCycle]

theorem shows_stepped (hFollows : Follows g before heard x w) : Shows before x (w.stepped next) :=
  ⟨hFollows.shows.tree, hFollows.shows.log, hFollows.shows.reloads⟩

theorem uses_of_takes (hFollows : Follows g before heard x w) (hTakes : w.Takes s next effects) : next.Uses g :=
  hFollows.uses.step hTakes.step (hFollows.returned_eq hTakes)

theorem exists_result_of_starts (hFollows : Follows g before heard x w) (hTakes : w.Takes s next effects)
    (hStart : .startCycle ∈ effects) (h : Host) (r : Receiver) :
    next.cycle = some g ∧ ∃ result,
      (effects.foldl (perform h r) (w.stepped next)).pending = some (cycleEnd g result) ∧
        (effects.foldl (Progress.perform g h r) x).cycles = x.cycles ++ [result] := by
  have hStarts := Orchestrator.startsCycle_of_step hTakes.step hStart
  obtain ⟨v, hCycle⟩ := Option.isSome_iff_exists.mp hStarts.cycle
  obtain rfl := hFollows.uses_of_takes hTakes v (.inr hCycle)
  obtain ⟨told, rfl, hTold⟩ := hStarts.exists_told
  exact ⟨hCycle, exists_result_foldl hFollows.shows_stepped hCycle hTold⟩

/-- What a step of the orchestrator preserves when its effects are performed. -/
theorem step (hFollows : Follows g before heard x w) (hTakes : w.Takes s next effects) :
    Follows g before (heard ++ [s]) (effects.foldl (Progress.perform g h r) x)
      (effects.foldl (perform h r) (w.stepped next)) := by
  have hCoherent := hFollows.coherent.step hTakes.step (hFollows.ne_panic hTakes)
  have hUses := hFollows.uses_of_takes hTakes
  have hNext : (effects.foldl (perform h r) (w.stepped next)).orchestrator = next := orchestrator_foldl ..
  have hEnds : (heard ++ [s]).filterMap Signal.end? = heard.filterMap Signal.end? ++ s.end?.toList := by
    cases hEnd : s.end? <;> simp [hEnd]
  by_cases hStart : .startCycle ∈ effects
  · obtain ⟨hCycle, result, hResult, hCycles⟩ := hFollows.exists_result_of_starts hTakes hStart h r
    refine ⟨hFollows.shows_stepped.foldl fun _ => hCycle, hNext.symm ▸ hCoherent, hNext.symm ▸ hUses, ?_,
      fun _ => ⟨result, hResult⟩⟩
    rw [hCycles, running_eq_of_ended (hNext.symm ▸ Option.isSome_of_eq_some hCycle) hResult, hEnds]
    calc
      (x.cycles ++ [result]).map (cycleEnd g)
        = x.cycles.map (cycleEnd g) ++ [cycleEnd g result] := List.map_append
      _ = before.cycles.map (cycleEnd g) ++ (heard.filterMap Signal.end? ++ s.end?.toList) ++ [cycleEnd g result] := by
        rw [hFollows.ledger, hFollows.running_of_starts hTakes hStart]
      _ = before.cycles.map (cycleEnd g) ++
          (heard.filterMap Signal.end? ++ s.end?.toList ++ [cycleEnd g result]) := List.append_assoc ..
  · have hSame : (effects.foldl (perform h r) (w.stepped next)).pending = w.pending := pending_foldl hStart
    have hRunning : (effects.foldl (perform h r) (w.stepped next)).running = (w.stepped next).running := by
      rw [running, hNext, hSame]
      rfl
    refine ⟨hFollows.shows_stepped.foldl fun hMem => absurd hMem hStart, hNext.symm ▸ hCoherent, hNext.symm ▸ hUses,
      ?_, ?_⟩
    · rw [cycles_foldl hStart, hRunning, hEnds, hFollows.ledger, hFollows.running_of_not_starts hTakes hStart,
        List.append_assoc]
    · rw [hNext, hSame]
      intro hSome
      obtain ⟨result, -, hNone⟩ | ⟨-, hCycle⟩ :=
        Orchestrator.cycle_of_not_starts hFollows.coherent hTakes.step hStart
      · rw [hNone] at hSome
        cases hSome
      · exact hFollows.pending (hCycle ▸ hSome)

theorem of_signal? (hSignal : w.signal? event = some s) :
    .ofSignal s = event ∧ ∀ result, s = .ended result → w.pending = some result := by
  cases event with
  | change now c | closed | due =>
    cases hSignal
    exact ⟨rfl, nofun⟩
  | ended =>
    obtain ⟨result, hPending, rfl⟩ := Option.map_eq_some_iff.mp hSignal
    exact ⟨rfl, fun result hResult => by rw [hPending, Signal.ended.inj hResult]⟩
  | edited t => cases hSignal

/-- Whether a signal can come depends on the event it comes of. -/
theorem step_eq_none_of_ofSignal {s' : Signal Generator} (hSame : WatchEvent.ofSignal s' = .ofSignal s)
    (hNone : o.step s = none) : o.step s' = none := by
  have hAwaits : o.awaits s' = o.awaits s := by
    cases s <;> cases s' <;> first | rfl | cases hSame
  rw [← Option.not_isSome_iff_eq_none, Orchestrator.step_isSome_iff] at hNone ⊢
  rwa [hAwaits]

theorem step_eq_none (hFollows : Follows g before heard x w)
    (hNone : (w.signal? (.ofSignal s)).bind w.orchestrator.step = none) : w.orchestrator.step s = none := by
  cases s with
  | change now c | closed | due => exact hNone
  | ended result =>
    by_cases hCycle : w.orchestrator.cycle.isSome = true
    · obtain ⟨made, hPending⟩ := hFollows.pending hCycle
      have hSignal : w.signal? .ended = some (.ended (cycleEnd g made)) := congrArg (Option.map Signal.ended) hPending
      rw [WatchEvent.ofSignal, hSignal, Option.bind_some] at hNone
      exact step_eq_none_of_ofSignal (s := .ended (cycleEnd g made)) rfl hNone
    · rw [← Option.not_isSome_iff_eq_none, Orchestrator.step_isSome_iff]
      exact fun hStep => hCycle hStep.2

theorem onTree (hFollows : Follows g before heard x w) (t : FileTree) :
    Follows g before heard (x.onTree t) (w.foundAfter (.edited t)) := by
  obtain ⟨⟨-, hLog, hReloads⟩, hCoherent, hUses, hLedger, hPending⟩ := hFollows
  exact ⟨⟨rfl, hLog, hReloads⟩, hCoherent, hUses, hLedger, hPending⟩

/-- What a run over events preserves, and how the orchestrator drives the project in it. -/
theorem run (hFollows : Follows g before heard x w) (h : Host) (r : Receiver) (events : List WatchEvent) :
    ∃ signals y, Drives g h r w.orchestrator x events signals (w.run h r events).orchestrator y ∧
      Follows g before (heard ++ signals) y (w.run h r events) := by
  induction events generalizing heard x w with
  | nil => exact ⟨[], x, .finished .., by rwa [List.append_nil]⟩
  | cons event rest ih =>
    rw [show w.run h r (event :: rest) = (w.handle h r event).run h r rest from rfl]
    cases hTaken : (w.signal? event).bind w.orchestrator.step with
    | some taken =>
      obtain ⟨next, effects⟩ := taken
      obtain ⟨s, hSignal, hStep⟩ := Option.bind_eq_some_iff.mp hTaken
      obtain ⟨rfl, hPending⟩ := of_signal? hSignal
      have hHandle : w.handle h r (.ofSignal s) = effects.foldl (perform h r) (w.stepped next) := by
        rw [handle, hTaken]
        rfl
      have hOrchestrator : (effects.foldl (perform h r) (w.stepped next)).orchestrator = next := orchestrator_foldl ..
      obtain ⟨signals, y, hDrives, hEnd⟩ := ih (hFollows.step (h := h) (r := r) ⟨hStep, hPending⟩)
      rw [hHandle]
      rw [hOrchestrator] at hDrives
      exact ⟨s :: signals, y, .taken hStep hDrives, by rwa [List.append_cons]⟩
    | none =>
      have hHandle : w.handle h r event = w.foundAfter event := by rw [handle, hTaken]
      rw [hHandle]
      obtain ⟨s, rfl⟩ | ⟨t, rfl⟩ := event.exists_ofSignal
      · obtain ⟨signals, y, hDrives, hEnd⟩ := ih hFollows
        rw [foundAfter_ofSignal]
        have hNone := hFollows.step_eq_none hTaken
        exact ⟨signals, y, .passed (fun _ hSame => step_eq_none_of_ofSignal hSame hNone) hDrives, hEnd⟩
      · obtain ⟨signals, y, hDrives, hEnd⟩ := ih (hFollows.onTree t)
        exact ⟨signals, y, .edited hDrives, hEnd⟩

theorem length_running (hFollows : Follows g before heard x w) :
    w.running.length = w.orchestrator.cycle.toList.length := by
  cases hCycle : w.orchestrator.cycle with
  | none => rw [running_eq_nil hCycle, List.length_nil, Option.toList_none, List.length_nil]
  | some v =>
    have hSome : w.orchestrator.cycle.isSome = true := Option.isSome_of_eq_some hCycle
    obtain ⟨result, hPending⟩ := hFollows.pending hSome
    rw [running_eq_of_ended hSome hPending, Option.toList_some, List.length_singleton, List.length_singleton]

end Follows

end Watching

/-! ### From the start -/

def Progress.orchestrator (g : Generator) (debounce : Nat) (h : Host) (x : Progress) : Orchestrator Generator :=
  Orchestrator.start (Filter.ofOutDir x.tree h.dir g.root g.config.outDir) debounce g

/-- The events drive a project from `x` to `y`, with the cycles `more` on the way. -/
structure Driven (g : Generator) (debounce : Nat) (h : Host) (r : Receiver) (x : Progress) (events : List WatchEvent)
    (signals : List (Signal Generator)) (last : Orchestrator Generator) (effects : List Effect)
    (more : List (Except GenerationError Generation)) (y : Progress) : Prop where
  drives : Drives g h r (x.orchestrator g debounce h) x events signals last y
  run : (x.orchestrator g debounce h).run signals = some (last, effects)
  cycles : y.cycles = x.cycles ++ more
  /-- No cycle runs that the orchestrator has not started. -/
  started : more.length = effects.count .startCycle
  /-- The orchestrator is told how each cycle ends, in order, but for the one that still runs. -/
  ended : ∃ running, running.length = last.cycle.toList.length ∧
    more.map (Watching.cycleEnd g) = signals.filterMap Signal.end? ++ running

theorem Watching.follows_start (h : Host) (p : Plugin) (x : Progress) :
    Follows p.generator x [] x (start h p x.tree) := by
  refine ⟨⟨rfl, (List.append_nil _).symm, (List.append_nil _).symm⟩, Orchestrator.Coherent.start .., ?_, ?_, nofun⟩
  · rintro v (hHeld | hNone)
    · exact (Option.some.inj hHeld).symm
    · cases hNone
  · exact (List.append_nil _).symm

/-- Watching a project goes as its orchestrator drives it. -/
theorem Watching.exists_driven (h : Host) (r : Receiver) (p : Plugin) (events : List WatchEvent) (x : Progress) :
    ∃ signals last effects more y, Driven p.generator p.debounce h r x events signals last effects more y ∧
      Shows x y ((start h p x.tree).run h r events) := by
  obtain ⟨signals, y, hDrives, hFollows⟩ := (follows_start h p x).run h r events
  obtain ⟨effects, more, hRun, hCycles, hCount⟩ := hDrives.run
  have hLedger := hFollows.ledger
  rw [hCycles, List.map_append] at hLedger
  exact ⟨signals, _, effects, more, y,
    ⟨hDrives, hRun, hCycles, hCount, _, hFollows.length_running, List.append_cancel_left hLedger⟩, hFollows.shows⟩

end

end ClientRegistry
