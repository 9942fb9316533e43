/-!
Timers. A timer holds a deadline and tells, when it is asked with the current time, whether the
deadline has passed. Nothing runs by itself, so a timer that was cancelled or set anew never fires
late. Times are milliseconds on one clock, and successive times may run backwards.
-/
namespace ArrayReplay

/-- Milliseconds, as a point in time or as a span. -/
abbrev Time := Nat

/-- Turns a burst of requests into one firing, after a quiet span. -/
structure Debounce where
  delay : Time
  deadline : Option Time := none
deriving DecidableEq

namespace Debounce

def schedule (now : Time) (d : Debounce) : Debounce := { d with deadline := some (now + d.delay) }

def cancel (d : Debounce) : Debounce := { d with deadline := none }

def isPending (d : Debounce) : Bool := d.deadline.isSome

def isDue (now : Time) (d : Debounce) : Bool :=
  match d.deadline with
  | some deadline => deadline ≤ now
  | none => false

def fire (now : Time) (d : Debounce) : Bool × Debounce :=
  if d.isDue now then (true, d.cancel) else (false, d)

end Debounce

/-- Fires again and again, at least an interval apart; the first time at once. -/
structure Ticker where
  interval : Time
  next : Option Time := none
deriving DecidableEq

namespace Ticker

def start (now : Time) (t : Ticker) : Ticker := { t with next := some now }

def stop (t : Ticker) : Ticker := { t with next := none }

def isDue (now : Time) (t : Ticker) : Bool :=
  match t.next with
  | some next => next ≤ now
  | none => false

/-- Whether it ticks now; if so, the next tick is an interval away from now. -/
def fire (now : Time) (t : Ticker) : Bool × Ticker :=
  if t.isDue now then (true, { t with next := some (now + t.interval) }) else (false, t)

end Ticker
end ArrayReplay
