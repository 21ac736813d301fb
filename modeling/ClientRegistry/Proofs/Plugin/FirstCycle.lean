import ClientRegistry.Proofs.Plugin.Driving
import ClientRegistry.Proofs.Work

/-!
# The first cycle runs once

A plugin is ready once its first cycle has been asked for, whatever the cycle comes to. So only the
first call runs it, and no later call nor the watching does. Watching a plugin that nobody has asked
runs it alone, before any event is taken in, and is over where it fails.
-/

set_option autoImplicit false

namespace ClientRegistry

open Watch

namespace Plugin

variable {p : Plugin} {h : Host} {r : Receiver} {t : FileTree} {events : List WatchEvent}

def askEach (h : Host) (p : Plugin) : List FileTree → List (Outcome GenerationError (Option Generation)) × Plugin
  | [] => ([], p)
  | t :: rest =>
    let (answer, next) := p.configResolved h t
    let (answers, last) := next.askEach h rest
    (answer :: answers, last)

theorem configResolved_of_ready (hReady : p.lifecycle = .ready) (t : FileTree) :
    p.configResolved h t = (⟨t, [], .ok none⟩, p) := by
  rw [configResolved, hReady]

theorem configResolved_of_notStarted {left : FileTree} {log : Log} {result : Except GenerationError Generation}
    (hNew : p.lifecycle = .notStarted) (hCycle : (p.generator.generate h).run t = ⟨left, log, result⟩) :
    p.configResolved h t = (⟨left, log, result.map some⟩, { p with lifecycle := .ready }) := by
  rw [configResolved, hNew]
  change ((some <$> p.generator.generate h).run t, _) = _
  rw [Work.run_map, hCycle]

theorem snd_configResolved (p : Plugin) (h : Host) (t : FileTree) :
    (p.configResolved h t).2 = { p with lifecycle := .ready } := by
  rw [configResolved]
  split
  · rename_i hReady
    rw [← hReady]
  · rfl

theorem askEach_eq (p : Plugin) (h : Host) (t : FileTree) (rest : List FileTree) :
    p.askEach h (t :: rest) = ((p.configResolved h t).1 :: ((p.configResolved h t).2.askEach h rest).1,
      ((p.configResolved h t).2.askEach h rest).2) := rfl

theorem askEach_of_ready (hReady : p.lifecycle = .ready) (trees : List FileTree) :
    p.askEach h trees = (trees.map fun found => ⟨found, [], .ok none⟩, p) := by
  induction trees with
  | nil => rfl
  | cons t rest ih => rw [askEach_eq, configResolved_of_ready hReady, ih, List.map_cons]

theorem askEach_cons (p : Plugin) (h : Host) (t : FileTree) (rest : List FileTree) :
    p.askEach h (t :: rest) =
      ((p.configResolved h t).1 :: rest.map fun found => ⟨found, [], .ok none⟩, { p with lifecycle := .ready }) := by
  rw [askEach_eq, snd_configResolved, askEach_of_ready rfl]

/-- Watching ends well, and the orchestrator has driven the project from `x` on. -/
def DrivenFrom (p : Plugin) (h : Host) (r : Receiver) (x : Progress) (events : List WatchEvent) (w : Watched) : Prop :=
  ∃ signals last effects more y, Driven p.generator p.debounce h r x events signals last effects more y ∧
    w = y.watched (.ok ())

theorem drivenFrom_watch {first : Option Generation} {ready : Plugin} {x : Progress} (hReloads : x.reloads = [])
    (hFirst : p.configResolved h t = (⟨x.tree, x.log, .ok first⟩, ready)) :
    p.DrivenFrom h r x events (p.watch h r events t) := by
  obtain rfl : { p with lifecycle := .ready } = ready := by rw [← snd_configResolved p h t, hFirst]
  obtain ⟨signals, last, effects, more, y, hDriven, hTree, hLog, hNew⟩ :=
    Watching.exists_driven h r { p with lifecycle := .ready } events x
  refine ⟨signals, last, effects, more, y, hDriven, ?_⟩
  rw [hReloads, List.nil_append] at hNew
  rw [watch, hFirst, Progress.watched, ← hTree, hLog, hNew]

theorem watch_of_error {left : FileTree} {log : Log} {e : GenerationError} {ready : Plugin}
    (hFirst : p.configResolved h t = (⟨left, log, .error e⟩, ready)) :
    p.watch h r events t = ⟨left, log, [], .error e⟩ := by
  rw [watch, hFirst]

structure RunsFirstCycleOnce (p : Plugin) (h : Host) (r : Receiver) : Prop where
  /-- The first call runs one cycle and answers what it has come to; the later ones do nothing. -/
  asked : ∀ t later left log result, (p.generator.generate h).run t = ⟨left, log, result⟩ →
    (p.askEach h (t :: later)).1 = ⟨left, log, result.map some⟩ :: later.map fun found => ⟨found, [], .ok none⟩
  /-- After any call all cycles are the orchestrator's. -/
  watchedAfterCall : ∀ t later found events, p.DrivenFrom h r ⟨found, [], [], []⟩ events
    ((p.askEach h (t :: later)).2.watch h r events found)
  /-- Without a call one cycle runs before the orchestrator starts, and no reload is signalled for it. -/
  watchedAtOnce : ∀ t left log made events, (p.generator.generate h).run t = ⟨left, log, .ok made⟩ →
    p.DrivenFrom h r ⟨left, log, [], [.ok made]⟩ events (p.watch h r events t)
  /-- Where that cycle fails nothing else is done, whatever the events. -/
  failed : ∀ t left log e events, (p.generator.generate h).run t = ⟨left, log, .error e⟩ →
    p.watch h r events t = ⟨left, log, [], .error e⟩

theorem runsFirstCycleOnce_ofGenerator (g : Generator) (debounce : Nat) (h : Host) (r : Receiver) :
    RunsFirstCycleOnce (ofGenerator g debounce) h r where
  asked t later left log result hCycle := by
    rw [askEach_cons, configResolved_of_notStarted rfl hCycle]
  watchedAfterCall t later found events := by
    rw [askEach_cons]
    have hReady := configResolved_of_ready (p := ⟨g, debounce, .ready⟩) (h := h) rfl found
    have hDriven : DrivenFrom ⟨g, debounce, .ready⟩ h r ⟨found, [], [], []⟩ events _ := drivenFrom_watch rfl hReady
    exact hDriven
  watchedAtOnce t left log made events hCycle := drivenFrom_watch rfl (configResolved_of_notStarted rfl hCycle)
  failed t left log e events hCycle := watch_of_error (configResolved_of_notStarted rfl hCycle)

end Plugin

end ClientRegistry
