import Entailment.Duration

/-!
# Computations that are watched

A search is a pure computation, and yet it reports what it does, gives up when a
limit is passed and is timed.  A value of `Monitored ε α` is a computation of an
`α` that waits for its surroundings at such points: it reports events of type
`ε`, reads a clock, and reads how much memory is in use.

Nothing is assumed about the readings.  What holds of a computation for all
readings holds for every clock and every memory.  `run` answers with given
readings, and `interpret` answers inside another monad.
-/

namespace Entailment

/-- A computation that reports events and reads a clock and a memory gauge.  The
clock shows the time since some fixed moment, and the gauge shows a number of
bytes if it shows anything. -/
inductive Monitored (ε α : Type) where
  | done (value : α)
  | report (event : ε) (next : Unit → Monitored ε α)
  | readClock (next : Duration → Monitored ε α)
  | readMemory (next : Option Nat → Monitored ε α)

namespace Monitored

variable {ε δ α γ : Type}

/-- Go on with the value of a computation. -/
def bind : Monitored ε α → (α → Monitored ε γ) → Monitored ε γ
  | done value, after => after value
  | report event next, after => .report event fun _ => (next ()).bind after
  | readClock next, after => .readClock fun now => (next now).bind after
  | readMemory next, after => .readMemory fun bytes => (next bytes).bind after

instance : Monad (Monitored ε) where
  pure := .done
  bind := .bind

/-- Report an event. -/
def tell (event : ε) : Monitored ε Unit :=
  .report event .done

/-- Report some events in order. -/
def tellAll : List ε → Monitored ε Unit
  | [] => .done ()
  | event :: rest => .report event fun _ => tellAll rest

/-- Read the clock. -/
def clock : Monitored ε Duration :=
  .readClock .done

/-- Read the memory gauge. -/
def memory : Monitored ε (Option Nat) :=
  .readMemory .done

/-- Change the events of a computation, leaving out those without an image. -/
def filterMap (f : ε → Option δ) : Monitored ε α → Monitored δ α
  | done value => .done value
  | report event next =>
      match f event with
      | some image => .report image fun _ => (next ()).filterMap f
      | none => (next ()).filterMap f
  | readClock next => .readClock fun now => (next now).filterMap f
  | readMemory next => .readMemory fun bytes => (next bytes).filterMap f

/-- Run a computation whose readings never change.  `events` are the events so
far, last one first. -/
def runFrom (now : Duration) (bytes : Option Nat) (events : List ε) :
    Monitored ε α → α × List ε
  | done value => (value, events.reverse)
  | report event next => (next ()).runFrom now bytes (event :: events)
  | readClock next => (next now).runFrom now bytes events
  | readMemory next => (next bytes).runFrom now bytes events

/-- The value and the events of a computation whose readings never change. -/
def run (now : Duration) (bytes : Option Nat) (computation : Monitored ε α) : α × List ε :=
  computation.runFrom now bytes []

/-- Run a computation inside a monad that takes the events and gives the
readings. -/
def interpret {m : Type → Type} [Monad m] (onEvent : ε → m Unit) (now : m Duration)
    (bytes : m (Option Nat)) : Monitored ε α → m α
  | done value => pure value
  | report event next => do
      onEvent event
      (next ()).interpret onEvent now bytes
  | readClock next => do
      let reading ← now
      (next reading).interpret onEvent now bytes
  | readMemory next => do
      let reading ← bytes
      (next reading).interpret onEvent now bytes

end Monitored

end Entailment
