import ClientRegistry.Watch.Orchestrator

/-!
# Running on a clock

The orchestrator runs on a clock that only sleeping moves: a cycle takes no time, and a change is
handled when it is sent. The changes that come during a cycle are part of the plan of that cycle;
they come only while the sender has not closed.
-/

set_option autoImplicit false

namespace ClientRegistry.Watch

inductive Ending where
  | success
  | failure (cause : String)
  | panic
  deriving DecidableEq, Repr

structure CyclePlan where
  during : List Change
  ending : Ending
  deriving DecidableEq, Repr

namespace CyclePlan

/-- A cycle for which nothing is planned. -/
def plain : CyclePlan := ⟨[], .success⟩

/-- The end of a cycle whose regenerator has counted the cycles before it. -/
def cycleEnd (p : CyclePlan) (count : Nat) : CycleEnd Nat :=
  match p.ending with
  | .success => .success (count + 1)
  | .failure cause => .failure (count + 1) ("cycle failed: " ++ cause)
  | .panic => .panic

end CyclePlan

inductive SenderStep where
  | send (c : Change)
  | sleep (time : Nat)
  deriving DecidableEq, Repr

inductive Occurrence where
  | sent
  | refused
  | cycle
  | reload (r : Reload)
  deriving DecidableEq, Repr

structure Timeline where
  orchestrator : Orchestrator Nat
  now : Nat
  trace : List (Nat × Occurrence)
  log : Log

namespace Timeline

def start (filter : Filter) (debounce : Nat) : Timeline :=
  ⟨Orchestrator.start filter debounce 0, 0, [], []⟩

def note (t : Timeline) (o : Occurrence) : Timeline := { t with trace := t.trace ++ [(t.now, o)] }

def perform (t : Timeline) : Effect → Timeline
  | .tell line => { t with log := t.log ++ [line] }
  | .startCycle => t.note .cycle
  | .reload r => t.note (.reload r)

def signal (t : Timeline) (s : Signal Nat) : Timeline :=
  match t.orchestrator.step s with
  | some (next, effects) => effects.foldl perform { t with orchestrator := next }
  | none => t

def change (t : Timeline) (c : Change) : Timeline := t.signal (.change t.now c)

/-- Runs the cycle that has started and those that follow on it, at most the given number. -/
def runCycles (plans : List CyclePlan) : Nat → Timeline → Timeline
  | 0, t => t
  | steps + 1, t =>
    match t.orchestrator.cycle with
    | none => t
    | some count =>
      let plan := plans[count]?.getD CyclePlan.plain
      let met := plan.during.foldl change t
      runCycles plans steps (met.signal (.ended (plan.cycleEnd count)))

/-- Lets the deadline pass. A cycle follows on another one only where changes were planned during
it, so one more cycle than there are plans is enough. -/
def due (plans : List CyclePlan) (t : Timeline) : Timeline :=
  runCycles plans (plans.length + 1) (t.signal .due)

/-- Moves the clock, past the deadline if there is one before. -/
def advance (plans : List CyclePlan) (t : Timeline) (time : Nat) : Timeline :=
  match t.orchestrator.deadline with
  | some d => if d ≤ time then { due plans { t with now := d } with now := time } else { t with now := time }
  | none => { t with now := time }

def senderStep (plans : List CyclePlan) (t : Timeline) : SenderStep → Timeline
  | .send c => if t.orchestrator.lost then t.note .refused else (t.note .sent).change c
  | .sleep time => t.advance plans (t.now + time)

def finish (plans : List CyclePlan) (t : Timeline) : Timeline :=
  match (t.signal .closed).orchestrator.deadline with
  | some d => due plans { t.signal .closed with now := d }
  | none => t.signal .closed

def play (filter : Filter) (debounce : Nat) (plans : List CyclePlan) (steps : List SenderStep) :
    Timeline :=
  (steps.foldl (senderStep plans) (start filter debounce)).finish plans

/-- How many cycles there were, if none of them was lost. -/
def calls? (t : Timeline) : Option Nat := t.orchestrator.result?

end Timeline

end ClientRegistry.Watch
