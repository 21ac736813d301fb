import ClientRegistry.Plugin.Basic
import ClientRegistry.Watch.Orchestrator

/-!
# Watching a project

The orchestrator runs the cycles of a plugin's generator on the file tree, which others change as
well. What a cycle comes to is known when it starts, and the orchestrator learns of it when it ends.
The first cycle, where it has not run, comes before all signals, and its failure is the end of the
watching.
-/

set_option autoImplicit false

namespace ClientRegistry

open Watch

inductive WatchEvent where
  | change (now : Nat) (c : Change)
  /-- No more changes will come. -/
  | closed
  /-- The deadline has passed. -/
  | due
  /-- The running cycle ends. -/
  | ended
  /-- Somebody else has changed the file tree to this one. -/
  | edited (t : FileTree)

structure Receiver where
  sink : Sink
  listens : Bool
  deriving DecidableEq, Repr

/-- A project that is being watched, with what has been told and signalled so far. -/
structure Watching where
  orchestrator : Orchestrator Generator
  /-- What the running cycle has come to. -/
  pending : Option (CycleEnd Generator)
  tree : FileTree
  log : Log
  reloads : List Reload

namespace Watching

def start (h : Host) (p : Plugin) (t : FileTree) : Watching where
  orchestrator :=
    Orchestrator.start (Filter.ofOutDir t h.dir p.generator.root p.generator.config.outDir) p.debounce
      p.generator
  pending := none
  tree := t
  log := []
  reloads := []

def tell (w : Watching) (log : Log) : Watching := { w with log := w.log ++ log }

def cycleEnd (g : Generator) : Except GenerationError Generation → CycleEnd Generator
  | .ok _ => .success g
  | .error e => .failure g e.text

def runCycle (h : Host) (w : Watching) : Watching :=
  match w.orchestrator.cycle with
  | some g =>
    let done := (g.generate h).run w.tree
    { w with tree := done.tree, log := w.log ++ done.log, pending := some (cycleEnd g done.result) }
  | none => w

def perform (h : Host) (r : Receiver) (w : Watching) : Effect → Watching
  | .tell line => w.tell [line]
  | .startCycle => w.runCycle h
  | .reload signal =>
    if r.listens then { w with reloads := w.reloads ++ [signal] }
    else w.tell [Log.debug r.sink.unheard]

def signal? (w : Watching) : WatchEvent → Option (Signal Generator)
  | .change now c => some (.change now c)
  | .closed => some .closed
  | .due => some .due
  | .ended => w.pending.map Signal.ended
  | .edited _ => none

def foundAfter (w : Watching) : WatchEvent → Watching
  | .edited t => { w with tree := t }
  | _ => w

/-- Takes in an event; one that cannot happen changes nothing. -/
def handle (h : Host) (r : Receiver) (w : Watching) (e : WatchEvent) : Watching :=
  match (w.signal? e).bind w.orchestrator.step with
  | some (next, effects) => effects.foldl (perform h r) { w with orchestrator := next }
  | none => w.foundAfter e

def run (h : Host) (r : Receiver) (w : Watching) (events : List WatchEvent) : Watching :=
  events.foldl (handle h r) w

end Watching

structure Watched where
  tree : FileTree
  log : Log
  reloads : List Reload
  result : Except GenerationError Unit

def Plugin.watch (p : Plugin) (h : Host) (r : Receiver) (events : List WatchEvent) (t : FileTree) : Watched :=
  let (first, ready) := p.configResolved h t
  match first.result with
  | .error e => ⟨first.tree, first.log, [], .error e⟩
  | .ok _ =>
    let w := (Watching.start h ready first.tree).run h r events
    ⟨w.tree, first.log ++ w.log, w.reloads, .ok ()⟩

/-- All that happens when changes are waiting and no more will come: they are taken in one after
the other, and a cycle follows if one of them counts. -/
def WatchEvent.ofQueue (changes : List Change) : List WatchEvent :=
  changes.map (WatchEvent.change 0) ++ [.closed, .due, .ended]

end ClientRegistry
