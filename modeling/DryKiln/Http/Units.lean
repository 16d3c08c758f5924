import DryKiln.Config.Basic
import DryKiln.Device.Fault
import DryKiln.Http.Exchange
import DryKiln.Json.Reader
import DryKiln.Run.Document
import DryKiln.Runner.Launch
/-!
The sensor unit and the power unit behind a network: what they are asked, and what their responses
mean.
-/

namespace DryKiln
namespace Http

/-- A request for the values at an address. -/
def readRequest (url : String) : Request := ⟨.get, url, none⟩

/-- The address without slashes at its end. -/
def trimSlashes (url : String) : String :=
  String.ofList (url.toList.reverse.dropWhile (· = '/')).reverse

/-- The address of one actuator. -/
def channelUrl (url : String) (channel : Channel) : String :=
  trimSlashes url ++ "/" ++ channel.label

/-- A request to set an actuator. -/
def commandRequest (url : String) (command : Command) : Request :=
  ⟨.post, channelUrl url command.channel, some (commandToDocument command.percent)⟩

/-- What a unit says about its failure: the error that it reports, or else all it says. -/
def failureText (response : Response) : String :=
  match response.body with
  | none => ""
  | some body =>
    match Json.read? body >>= reportedError? with
    | some message => if message = "" then body else message
    | none => body

/-- The values in a reply. -/
def valuesOf {α : Type} (read : Document → Option α) (reply : Reply) : Except SensorFault α :=
  match reply with
  | .error text => .error (.transport text)
  | .ok response =>
    if !response.isSuccess then .error (.refused response.status (failureText response))
    else
      match response.body >>= Json.read? >>= read with
      | some values => .ok values
      | none => .error (.undecodable "not the expected values")

/-- The temperatures in a reply of the sensor unit. -/
def temperaturesOf (reply : Reply) : Except SensorFault Temperatures := do
  match Temperatures.ofValues? (← valuesOf Temperatures.responseValues? reply) with
  | some reading => return reading
  | none => throw (.missingValue "oven/material temperature")

/-- The report in a reply of the power unit. -/
def powerOf (reply : Reply) : Except SensorFault PowerReading := do
  match PowerReading.ofValues? (← valuesOf PowerReading.responseValues? reply) with
  | some reading => return reading
  | none => throw (.missingValue "heater/fan/humidifier state")

/-- Whether the power unit has taken a command. -/
def takenOf (reply : Reply) : Except CommandFault Unit :=
  match reply with
  | .error text => .error (.transport text)
  | .ok response =>
    if response.isSuccess then .ok ()
    else .error (.refused response.status (failureText response))

/-- What comes before a run: the program is filled and checked, and both units must answer. -/
def reach (network : Network) (defaults : Defaults) (sensorUnit powerUnit : Endpoint)
    (program : Program) : Except EngineFault Program := do
  let ready ← (program.ready defaults).mapError .invalidProgram
  let _ ← (temperaturesOf (network (readRequest sensorUnit.url))).mapError
    (.sensorUnreachable .temperature)
  let _ ← (powerOf (network (readRequest powerUnit.url))).mapError (.sensorUnreachable .power)
  return ready

end Http
end DryKiln
