import ClientRegistry.Log
import ClientRegistry.Watch.Filter
import ClientRegistry.Watch.Reload

/-!
# When to regenerate

While no cycle runs, each change that counts puts the start of the next one off by the debounce
time. Changes during a cycle are taken together into one more cycle, which starts when the running
one ends. Each successful cycle is followed by a reload signal.

What happens to the orchestrator is a `Signal`; what it does in answer is a list of effects. Which
of the possible signals comes next is left open, so a statement about all lists of signals is one
about all interleavings.
-/

set_option autoImplicit false

namespace ClientRegistry.Watch

/-- Where the orchestrator is in its cycle. -/
inductive Phase where
  | idle
  | generating
  /-- A cycle runs, and a change has come since it started. -/
  | regenPending
  deriving DecidableEq, Repr

/-- How a cycle ends, and the regenerator it hands back; a panic loses it. -/
inductive CycleEnd (ρ : Type) where
  | success (next : ρ)
  | failure (next : ρ) (cause : String)
  | panic
  deriving DecidableEq, Repr

inductive Signal (ρ : Type) where
  | change (now : Nat) (c : Change)
  /-- No more changes will come. -/
  | closed
  /-- The deadline has passed. -/
  | due
  | ended (result : CycleEnd ρ)
  deriving DecidableEq, Repr

inductive Effect where
  | tell (line : Log.Line)
  | startCycle
  | reload (r : Reload)
  deriving DecidableEq, Repr

structure Orchestrator (ρ : Type) where
  filter : Filter
  /-- How long no change may come before a cycle starts. -/
  debounce : Nat
  phase : Phase
  /-- What runs the cycles, while no cycle has it. -/
  regenerator : Option ρ
  /-- When the next cycle starts. -/
  deadline : Option Nat
  /-- The running cycle, by the regenerator it has. -/
  cycle : Option ρ
  isOpen : Bool
  /-- Whether a cycle has taken the regenerator with it. -/
  lost : Bool
  deriving DecidableEq, Repr

namespace Orchestrator

variable {ρ : Type}

def start (filter : Filter) (debounce : Nat) (regenerator : ρ) : Orchestrator ρ where
  filter := filter
  debounce := debounce
  phase := .idle
  regenerator := some regenerator
  deadline := none
  cycle := none
  isOpen := true
  lost := false

/-- Nothing more can happen. -/
def isDone (o : Orchestrator ρ) : Bool :=
  o.lost || (!o.isOpen && o.deadline.isNone && o.cycle.isNone)

def changeText (c : Change) : String := c.kind.name ++ " " ++ c.path.text

def onChange (o : Orchestrator ρ) (now : Nat) (c : Change) : Orchestrator ρ × List Effect :=
  if o.filter.accepts c then
    (match o.phase with
      | .idle => { o with deadline := some (now + o.debounce) }
      | .generating | .regenPending => { o with phase := .regenPending },
      [.tell (Log.debug (changeText c))])
  else (o, [.tell (Log.debug ("Ignoring " ++ changeText c))])

/-- Hands the regenerator to a new cycle, if it is there. -/
def startCycle (o : Orchestrator ρ) : Orchestrator ρ × List Effect :=
  match o.regenerator with
  | some r => ({ o with regenerator := none, phase := .generating, cycle := some r }, [.startCycle])
  | none => ({ o with cycle := none }, [])

def afterCycle (o : Orchestrator ρ) (next : ρ) : Orchestrator ρ × List Effect :=
  match o.phase with
  | .regenPending =>
    let (started, effects) := { o with cycle := none, regenerator := some next }.startCycle
    (started, .tell (Log.debug "Changes arrived during generation, regenerating") :: effects)
  | .idle | .generating => ({ o with cycle := none, regenerator := some next, phase := .idle }, [])

def onEnded (o : Orchestrator ρ) : CycleEnd ρ → Orchestrator ρ × List Effect
  | .success next =>
    let (after, effects) := o.afterCycle next
    (after, .tell (Log.info "Regenerated clients, reloading") :: .reload .full :: effects)
  | .failure next cause =>
    let (after, effects) := o.afterCycle next
    (after, .tell (Log.error ("Regeneration failed: " ++ cause)) :: effects)
  | .panic =>
    ({ o with cycle := none, lost := true }, [.tell (Log.error "Regeneration task failed:")])

/-- What the orchestrator does on a signal; none where the signal cannot come. -/
def step (o : Orchestrator ρ) (s : Signal ρ) : Option (Orchestrator ρ × List Effect) :=
  if o.lost then none
  else
    match s with
    | .change now c => if o.isOpen then some (o.onChange now c) else none
    | .closed => if o.isOpen then some ({ o with isOpen := false }, []) else none
    | .due => if o.deadline.isSome then some { o with deadline := none }.startCycle else none
    | .ended result => if o.cycle.isSome then some (o.onEnded result) else none

def run (o : Orchestrator ρ) : List (Signal ρ) → Option (Orchestrator ρ × List Effect)
  | [] => some (o, [])
  | s :: rest => do
    let (next, effects) ← o.step s
    let (last, more) ← next.run rest
    some (last, effects ++ more)

/-- The regenerator that a run hands back when it ends. -/
def result? (o : Orchestrator ρ) : Option ρ := if o.lost then none else o.regenerator

end Orchestrator

end ClientRegistry.Watch
