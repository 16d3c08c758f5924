import DryKiln.Device.Fault
/-!
A poller reads one unit whenever it is asked to. Requests wait in a queue in front of it and
readings in a queue behind it, both of the same small size; a request for which there is no room is
dropped, and a reading for which there is none holds the poller up.
-/

namespace DryKiln

inductive PollerRequest where
  | read
  | stop
deriving DecidableEq, Repr

inductive PollerActivity (α : Type) where
  | waiting
  /-- The read of this number is going on until this instant. -/
  | reading (number ends : Nat)
  /-- It has a reading for which there has been no room yet. -/
  | holding (reading : α)
  | finished
deriving DecidableEq, Repr

/-- A poller with its two queues, the oldest item of each first. -/
structure Poller (α : Type) where
  requests : List PollerRequest
  /-- Somebody may still ask. -/
  asked : Bool
  responses : List α
  /-- Somebody still takes the readings. -/
  heard : Bool
  activity : PollerActivity α
deriving DecidableEq, Repr

/-- A unit as a poller sees it. -/
structure Sensor (α : Type) where
  /-- How many milliseconds a read that begins now takes. -/
  delay : Nat
  /-- What the read of a number gives if it ends now. -/
  answer : Nat → Except SensorFault α

/-- What becomes of a request. -/
inductive Sent where
  | sent
  | full
  | closed
deriving DecidableEq, Repr

/-- What is found in the queue of readings. -/
inductive Received (α : Type) where
  | reading (value : α)
  | empty
  | closed
deriving DecidableEq, Repr

namespace Poller

variable {α : Type}

/-- The size of both queues. -/
def capacity : Nat := 4

/-- A poller that has not been asked anything. -/
def fresh : Poller α := ⟨[], true, [], true, .waiting⟩

/-- The poller has come to its end. -/
def isFinished (p : Poller α) : Bool :=
  match p.activity with
  | .finished => true
  | _ => false

/-- Asks the poller, without waiting. -/
def send (p : Poller α) (request : PollerRequest) : Poller α × Sent :=
  if p.isFinished then (p, .closed)
  else if capacity ≤ p.requests.length then (p, .full)
  else ({ p with requests := p.requests ++ [request] }, .sent)

/-- Takes the oldest reading, without waiting. -/
def receive (p : Poller α) : Poller α × Received α :=
  match p.responses with
  | reading :: rest => ({ p with responses := rest }, .reading reading)
  | [] => (p, if p.isFinished then .closed else .empty)

/-- Nobody will ask any more; what has been asked stays in the queue. -/
def hangUp (p : Poller α) : Poller α := { p with asked := false }

/-- Nobody takes the readings any more. -/
def deafen (p : Poller α) : Poller α := { p with heard := false, responses := [] }

/-- One step of a poller, and how many reads have begun in it; nothing if it has to wait. -/
def step? (sensor : Sensor α) (now begun : Nat) (p : Poller α) : Option (Poller α × Nat) :=
  match p.activity with
  | .finished => none
  | .waiting =>
    match p.requests with
    | .read :: rest =>
      some ({ p with requests := rest, activity := .reading begun (now + sensor.delay) }, 1)
    | .stop :: rest => some ({ p with requests := rest, activity := .finished }, 0)
    | [] => if p.asked then none else some ({ p with activity := .finished }, 0)
  | .reading number ends =>
    if ends ≤ now then
      match sensor.answer number with
      | .ok reading => some ({ p with activity := .holding reading }, 0)
      | .error _ => some ({ p with activity := .waiting }, 0)
    else none
  | .holding reading =>
    if !p.heard then some ({ p with activity := .finished }, 0)
    else if p.responses.length < capacity then
      some ({ p with responses := p.responses ++ [reading], activity := .waiting }, 0)
    else none

/-- How many more steps the poller can take before somebody else does something. -/
def weight (p : Poller α) : Nat :=
  3 * p.requests.length + match p.activity with
    | .finished => 0
    | .waiting => 1
    | .holding _ => 2
    | .reading _ _ => 3

/-- So many steps of a poller, or fewer if it has to wait, and how many reads have begun by then. -/
def steps (sensor : Sensor α) (now : Nat) : Nat → Nat → Poller α → Poller α × Nat
  | 0, begun, p => (p, begun)
  | count + 1, begun, p =>
    match p.step? sensor now begun with
    | none => (p, begun)
    | some (next, reads) => steps sensor now count (begun + reads) next

/-- Lets the poller work until it has to wait. -/
def settle (sensor : Sensor α) (now begun : Nat) (p : Poller α) : Poller α × Nat :=
  steps sensor now p.weight begun p

/-- The instant at which the read that is going on ends. -/
def nextEnd (p : Poller α) : Option Nat :=
  match p.activity with
  | .reading _ ends => some ends
  | _ => none

end Poller
end DryKiln
