import ScriptFront.Path

/-!
# Watching a file

The **loop** that turns signals of the file system into changes of one file. A change is told at
once, unless the last one was told less than the *debounce* before: then a single call is kept
pending, and it is told when that time is over. Time is read once for every signal.

Points in time are nanoseconds of a clock without end, but **durations have sixty-four bits**. The
time since the last change stops at the longest duration, which is also what it is before the first
change, and a difference of durations wraps around.

The loop does not choose among signals that are ready together. In particular an event can come in
between the deadline of a pending call and the call itself; it is told at once, and the pending
call stays pending.
-/

namespace ScriptFront.Watch

open Text

/-- What can happen to a file. -/
inductive Operation where
  | create
  | write
  | remove
  | rename
  | changeMode
  deriving DecidableEq, Repr

/-- Something has happened to a file. -/
structure Event where
  name : Bytes
  operations : List Operation
  deriving DecidableEq, Repr

namespace Event

/-- Can the content be another one after the event? -/
def changesContent (e : Event) : Bool :=
  e.operations.any fun o => o = .create || o = .write

/-- Is the event about the file at `path`, and can the content be another one after it? -/
def concerns (path : Bytes) (e : Event) : Bool :=
  Path.clean e.name = Path.clean path && e.changesContent

end Event

/-- What the loop waits for. -/
inductive Signal where
  | event (e : Event)
  /-- The time of the pending call has come. -/
  | expiry
  | error (message : Bytes)
  /-- There will be no more events or errors. -/
  | closed
  | cancelled
  deriving DecidableEq, Repr

/-- What the loop does in answer to a signal. -/
inductive Action where
  | change
  | complain (message : Bytes)
  deriving DecidableEq, Repr

/-- What is watched, and the least time between two changes. -/
structure Watcher where
  path : Bytes
  debounce : Int64
  deriving DecidableEq, Repr

/-- The state of the loop. -/
structure Loop where
  /-- When the last change was told. -/
  last : Option Int := none
  /-- When the pending call is due. -/
  deadline : Option Int := none
  isDone : Bool := false
  deriving DecidableEq, Repr, Inhabited

namespace Loop

/-- Tells a change. -/
def tell (l : Loop) (now : Int) : Loop × Option Action :=
  ({ l with last := some now }, some .change)

/-- How long ago the last change was told. If that is longer than a duration can be, or there was
none, it is the longest duration. -/
def sinceLast (l : Loop) (now : Int) : Int64 :=
  match l.last with
  | none => Int64.maxValue
  | some last => Int64.ofIntClamp (now - last)

/-- How long the next change has to wait; it need not if this is not positive. -/
def wait (l : Loop) (w : Watcher) (now : Int) : Int64 :=
  w.debounce - l.sinceLast now

/-- A change has been seen: it is told at once, or a call is pending for it. -/
def see (l : Loop) (w : Watcher) (now : Int) : Loop × Option Action :=
  if 0 < l.wait w now then
    ({ l with deadline := some (l.deadline.getD (now + (l.wait w now).toInt)) }, none)
  else l.tell now

/-- Is the pending call due? -/
def isDue (l : Loop) (now : Int) : Bool :=
  l.deadline.any (· ≤ now)

/-- **One turn of the loop.** A loop that is done does nothing more. -/
def step (w : Watcher) (now : Int) (l : Loop) (signal : Signal) : Loop × Option Action :=
  if l.isDone then (l, none)
  else match signal with
    | .event e => if e.concerns w.path then l.see w now else (l, none)
    | .expiry => if l.isDue now then { l with deadline := none }.tell now else (l, none)
    | .error message => (l, some (.complain message))
    | .closed | .cancelled => ({ l with isDone := true }, none)

/-! ### Laws -/

/-- An event that is not about the content of the file **changes nothing**. -/
theorem step_event_of_not_concerns (w : Watcher) (now : Int) (l : Loop) {e : Event}
    (h : e.concerns w.path = false) : l.step w now (.event e) = (l, none) := by
  simp [step, h]

/-- A complaint leaves the loop as it is. -/
theorem step_error_fst (w : Watcher) (now : Int) (l : Loop) (message : Bytes) :
    (l.step w now (.error message)).1 = l := by
  unfold step
  split <;> rfl

end Loop

end ScriptFront.Watch
