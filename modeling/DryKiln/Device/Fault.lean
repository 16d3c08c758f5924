/-!
Why a unit cannot be read or commanded.
-/

namespace DryKiln

inductive SensorFault where
  | transport (text : String)
  | refused (status : Nat) (text : String)
  | undecodable (text : String)
  | missingValue (name : String)
deriving DecidableEq, Repr

def SensorFault.kind : SensorFault → String
  | transport _ => "Transport"
  | refused _ _ => "Status"
  | undecodable _ => "Decode"
  | missingValue _ => "MissingValue"

def SensorFault.message : SensorFault → String
  | transport text => "sensor request failed: " ++ text
  | refused status text => "sensor returned " ++ toString status ++ ": " ++ text
  | undecodable text => "cannot decode sensor response: " ++ text
  | missingValue name => "sensor response is missing '" ++ name ++ "'"

/-- Why the power unit does not take a command. -/
inductive CommandFault where
  | transport (text : String)
  | refused (status : Nat) (text : String)
deriving DecidableEq, Repr

def CommandFault.kind : CommandFault → String
  | transport _ => "Transport"
  | refused _ _ => "Status"

def CommandFault.message : CommandFault → String
  | transport text => "power command failed: " ++ text
  | refused status text => "power unit returned " ++ toString status ++ ": " ++ text

inductive SensorUnit where
  | temperature
  | power
deriving DecidableEq, Repr

def SensorUnit.label : SensorUnit → String
  | temperature => "temperature"
  | power => "psu"

end DryKiln
