import DryKiln.Kiln.Channel
/-!
The gateway to the power unit. Commands wait in a queue without end, so that whoever sends one
never has to wait; they are delivered one by one in the order in which they were sent. A command
that the power unit does not take is lost, and nobody is told.
-/

namespace DryKiln

/-- Who delivers the commands of a gateway. -/
inductive DeliveryState where
  | ready
  | working
  | finished
  /-- Nobody will ever deliver anything. -/
  | absent
deriving DecidableEq, Repr

/-- A gateway with the commands that have not been delivered yet, the oldest first. -/
structure Gateway where
  commands : List Command
  isOpen : Bool
  delivery : DeliveryState
deriving DecidableEq, Repr

namespace Gateway

/-- A gateway that has no commands and whose delivery has not begun. -/
def fresh : Gateway := ⟨[], true, .ready⟩

/-- Queues a command; one that nobody can ever deliver is dropped. -/
def send (g : Gateway) (command : Command) : Gateway :=
  match g.isOpen, g.delivery with
  | true, .ready => { g with commands := g.commands ++ [command] }
  | true, .working => { g with commands := g.commands ++ [command] }
  | _, _ => g

/-- No more commands will come. -/
def close (g : Gateway) : Gateway := { g with isOpen := false }

def start (g : Gateway) : Gateway :=
  if g.delivery = .ready then { g with delivery := .working } else g

/-- Gives up the delivery before it has begun. -/
def abandon (g : Gateway) : Gateway :=
  if g.delivery = .ready then { g with commands := [], delivery := .absent } else g

/-- One step of the delivery: the command that is handed to the power unit, if any; nothing if
the delivery has to wait. -/
def step? (g : Gateway) : Option (Gateway × Option Command) :=
  if g.delivery = .working then
    match g.commands with
    | command :: rest => some ({ g with commands := rest }, some command)
    | [] => if g.isOpen then none else some ({ g with delivery := .finished }, none)
  else none

/-- Lets the delivery work until it has to wait, and the commands that the power unit took; it
takes those that `takes` says. -/
def settle (takes : Command → Bool) (g : Gateway) : Gateway × List Command :=
  if g.delivery = .working then
    ({ g with commands := [], delivery := if g.isOpen then .working else .finished },
      g.commands.filter takes)
  else (g, [])

def isFinished (g : Gateway) : Bool := g.delivery == .finished

end Gateway
end DryKiln
