/-!
# Stop signals

A server is stopped through **handles**, which belong to one family; each connection watches a
**signal** taken from a handle. What the handles of a family share is a flag, which says whether one
of them has been stopped, and a version, which counts how often the flag was set. A family also
knows whether its server is listening.

A signal has fired once its family is stopped. It remembers the version that it last saw and, while
it is waited for, how far the wait has come. A wait looks at the flag first. It then sleeps until
the version is another one than was seen, and looks again; if it finds that no handle is left, it
sleeps on for good. A wait that has not ended may be taken up again later or be given up.

`Signals` is the state of any number of handles and signals, which are numbered in the order of
their making. A handle that was dropped keeps its number but cannot be used. A signal may belong to
a family that never had a handle.
-/

namespace HttpEngine

/-- What the handles of one family share. -/
structure Family where
  /-- Whether a handle has been stopped. -/
  stopped : Bool := false
  /-- How often a handle has been stopped. -/
  version : Nat := 0
  /-- Whether the server of the family is listening. -/
  listening : Bool := false
  deriving DecidableEq, Repr, Inhabited

/-- How far the wait for a signal has come. -/
inductive Wait where
  /-- Nobody waits. -/
  | idle
  /-- It sleeps until the version is not the one it has seen. -/
  | asleep
  /-- It sleeps for good. -/
  | lost
  deriving DecidableEq, Repr

/-- A signal. -/
structure Signal where
  /-- The number of its family. -/
  family : Nat
  /-- The version of its family that it last saw. -/
  seen : Nat
  wait : Wait := .idle
  deriving DecidableEq, Repr

/-- The handles and signals that have been made, with their families. -/
structure Signals where
  families : List Family := []
  /-- For each handle its family, or nothing once it is dropped. -/
  handles : List (Option Nat) := []
  signals : List Signal := []
  deriving DecidableEq, Repr

namespace Signals

/-- A new family with its first handle. -/
def addFamily (s : Signals) : Signals :=
  { s with families := s.families ++ [{}], handles := s.handles ++ [some s.families.length] }

/-- One handle. -/
def single : Signals := addFamily {}

/-- The number of the family of a handle that has not been dropped. -/
def family? (s : Signals) (handle : Nat) : Option Nat := (s.handles[handle]?).join

/-- What the handles of a family share. -/
def family (s : Signals) (number : Nat) : Family := s.families.getD number {}

/-- Whether a family has a handle that has not been dropped. -/
def held (s : Signals) (number : Nat) : Bool := s.handles.contains (some number)

/-- Changes what the handles of a family share. -/
def modify (s : Signals) (number : Nat) (change : Family → Family) : Signals :=
  { s with families := s.families.modify number change }

/-- Adds a handle of a family. -/
def addHandle (s : Signals) (number : Nat) : Signals :=
  { s with handles := s.handles ++ [some number] }

/-- Adds a signal. -/
def addSignal (s : Signals) (signal : Signal) : Signals :=
  { s with signals := s.signals ++ [signal] }

/-- A signal of a family, which takes the version of the family as seen. -/
def subscribe (s : Signals) (number : Nat) : Signal :=
  { family := number, seen := (s.family number).version }

/-- Adds a family without handles, and a signal of it. -/
def addOrphan (s : Signals) : Signals :=
  { s with
    families := s.families ++ [{}]
    signals := s.signals ++ [{ family := s.families.length, seen := 0 }] }

/-- Releases a handle. -/
def release (s : Signals) (handle : Nat) : Signals :=
  { s with handles := s.handles.set handle none }

/-- Stops a family. -/
def stop (s : Signals) (number : Nat) : Signals :=
  s.modify number fun family => { family with stopped := true, version := family.version + 1 }

/-- Records whether the server of a family is listening. -/
def setListening (s : Signals) (number : Nat) (listening : Bool) : Signals :=
  s.modify number fun family => { family with listening := listening }

/-- Replaces a signal. -/
def setSignal (s : Signals) (number : Nat) (signal : Signal) : Signals :=
  { s with signals := s.signals.set number signal }

/-! ### Waiting -/

/-- A signal that has seen the version of its family goes to sleep, for good if no handle is left to
set another. -/
def sleep (s : Signals) (signal : Signal) : Signal :=
  { signal with wait := if s.held signal.family then .asleep else .lost }

/-- Looks at the flag, and goes to sleep unless it is set. -/
def look (s : Signals) (signal : Signal) : Bool × Signal :=
  let family := s.family signal.family
  let signal := { signal with seen := family.version }
  if family.stopped then (true, { signal with wait := .idle }) else (false, s.sleep signal)

/-- Starts the wait for a signal or takes it up again: whether it has fired, and the signal
afterwards. -/
def poll (s : Signals) (signal : Signal) : Bool × Signal :=
  match signal.wait with
  | .idle => s.look signal
  | .asleep =>
    if signal.seen = (s.family signal.family).version then (false, s.sleep signal)
    else s.look signal
  | .lost => (false, signal)

/-! ### Actions -/

/-- What can be done with handles and signals. -/
inductive Action where
  /-- Makes a handle of a new family. -/
  | newHandle
  /-- Takes a second handle of a handle's family. -/
  | copyHandle (handle : Nat)
  | stop (handle : Nat)
  | release (handle : Nat)
  | isStopped (handle : Nat)
  | isListening (handle : Nat)
  /-- Takes a signal from a handle. -/
  | signal (handle : Nat)
  /-- Makes a signal of a family that has no handle. -/
  | orphan
  /-- Takes a second signal of a signal's family. -/
  | copySignal (signal : Nat)
  | poll (signal : Nat)
  /-- Gives up a wait. -/
  | abandon (signal : Nat)
  deriving DecidableEq, Repr

/-- What an action answers. -/
inductive Reply where
  | done
  /-- The number of the handle or signal that was made. -/
  | made (number : Nat)
  | told (answer : Bool)
  /-- The handle has been released. -/
  | released
  deriving DecidableEq, Repr

/-- Does something with the family of a handle, unless the handle has been released. -/
def withHandle (s : Signals) (handle : Nat) (act : Nat → Reply × Signals) : Reply × Signals :=
  match s.family? handle with
  | some number => act number
  | none => (.released, s)

/-- Takes an action. -/
def act (s : Signals) : Action → Reply × Signals
  | .newHandle => (.made s.handles.length, s.addFamily)
  | .copyHandle h => s.withHandle h fun f => (.made s.handles.length, s.addHandle f)
  | .stop h => s.withHandle h fun f => (.done, s.stop f)
  | .release h => s.withHandle h fun _ => (.done, s.release h)
  | .isStopped h => s.withHandle h fun f => (.told (s.family f).stopped, s)
  | .isListening h => s.withHandle h fun f => (.told (s.family f).listening, s)
  | .signal h => s.withHandle h fun f => (.made s.signals.length, s.addSignal (s.subscribe f))
  | .orphan => (.made s.signals.length, s.addOrphan)
  | .copySignal i =>
    match s.signals[i]? with
    | some signal => (.made s.signals.length, s.addSignal { signal with wait := .idle })
    | none => (.released, s)
  | .poll i =>
    match s.signals[i]? with
    | some signal => (.told (s.poll signal).1, s.setSignal i (s.poll signal).2)
    | none => (.told false, s)
  | .abandon i =>
    match s.signals[i]? with
    | some signal => (.done, s.setSignal i { signal with wait := .idle })
    | none => (.released, s)

/-- Takes actions in turn. -/
def after (s : Signals) (actions : List Action) : Signals :=
  actions.foldl (fun s a => (s.act a).2) s

end Signals

end HttpEngine
