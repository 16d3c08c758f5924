/-!
The three actuators of a kiln, commands to them, and tables with one entry for each.
-/

namespace DryKiln

/-- An actuator of the kiln. -/
inductive Channel where
  | heater
  | fan
  | humidifier
deriving DecidableEq, Repr

/-- One entry for each actuator. -/
structure PerChannel (α : Type) where
  heater : α
  fan : α
  humidifier : α
deriving DecidableEq, Repr

namespace Channel

/-- All actuators, in the order in which they are switched. -/
def all : List Channel := [heater, fan, humidifier]

/-- The name in documents, messages and requests. -/
def label : Channel → String
  | heater => "heater"
  | fan => "fan"
  | humidifier => "humidifier"

/-- The actuator with this name. -/
def ofLabel? (s : String) : Option Channel := all.find? fun c => c.label == s

/-- The position in tables. -/
def index : Channel → Nat
  | heater => 0
  | fan => 1
  | humidifier => 2

theorem ofLabel?_label (c : Channel) : ofLabel? c.label = some c := by cases c <;> decide

end Channel

/-- What the power unit is told: the percentage at which an actuator runs from now on. -/
structure Command where
  channel : Channel
  percent : UInt8
deriving DecidableEq, Repr

namespace PerChannel

variable {α β : Type}

/-- The entry of an actuator. -/
def get (table : PerChannel α) : Channel → α
  | .heater => table.heater
  | .fan => table.fan
  | .humidifier => table.humidifier

/-- The table with one entry changed. -/
def set (table : PerChannel α) (channel : Channel) (value : α) : PerChannel α :=
  match channel with
  | .heater => { table with heater := value }
  | .fan => { table with fan := value }
  | .humidifier => { table with humidifier := value }

/-- The table of a function. -/
def ofFn (f : Channel → α) : PerChannel α := ⟨f .heater, f .fan, f .humidifier⟩

/-- The same entry for every actuator. -/
def fill (value : α) : PerChannel α := ⟨value, value, value⟩

/-- Changes every entry. -/
def map (f : α → β) (table : PerChannel α) : PerChannel β :=
  ⟨f table.heater, f table.fan, f table.humidifier⟩

/-- The entries in the order of the actuators. -/
def toList (table : PerChannel α) : List α := [table.heater, table.fan, table.humidifier]

@[simp] theorem get_ofFn (f : Channel → α) (c : Channel) : (ofFn f).get c = f c := by
  cases c <;> rfl

@[simp] theorem get_fill (value : α) (c : Channel) : (fill value).get c = value := by
  cases c <;> rfl

@[simp] theorem get_map (f : α → β) (table : PerChannel α) (c : Channel) :
    (table.map f).get c = f (table.get c) := by
  cases c <;> rfl

theorem get_set (table : PerChannel α) (c d : Channel) (value : α) :
    (table.set c value).get d = if d = c then value else table.get d := by
  cases c <;> cases d <;> rfl

end PerChannel
end DryKiln
