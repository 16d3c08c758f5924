import DryKiln.Program.Document
import DryKiln.Text.Blank
/-!
The configuration of an installation, how it reads from a document, and its checks.
-/

namespace DryKiln

inductive LogLevel where
  | trace
  | debug
  | info
  | warn
  | error
deriving DecidableEq, Repr

namespace LogLevel

/-- All levels, the most talkative first. -/
def all : List LogLevel := [trace, debug, info, warn, error]

def label : LogLevel → String
  | trace => "trace"
  | debug => "debug"
  | info => "info"
  | warn => "warn"
  | error => "error"

def ofLabel? (s : String) : Option LogLevel := all.find? fun level => level.label == s

/-- The level of an installation that sets none. -/
def standard : LogLevel := info

end LogLevel

/-- What all services of an installation share. -/
structure SharedConfig where
  serviceName : String
  logLevel : LogLevel
deriving DecidableEq, Repr

/-- Where a unit is reached: the address of the unit and the path of its values. -/
structure Endpoint where
  address : String
  path : String
deriving DecidableEq, Repr

def Endpoint.url (endpoint : Endpoint) : String := endpoint.address ++ endpoint.path

structure Config where
  shared : SharedConfig
  basePath : String
  /-- Milliseconds. -/
  tickLength : UInt64
  /-- A reading older than this many seconds is asked for again. -/
  staleAfter : Int
  /-- Rows of one step are at least this many seconds apart in the execution log. -/
  logResolution : Int
  /-- Milliseconds. -/
  httpTimeout : UInt64
  sensorUnit : Endpoint
  powerUnit : Endpoint
  defaults : Defaults
deriving DecidableEq, Repr

/-- The values of a configuration that sets none. -/
def standardTickLength : UInt64 := 6000
def standardStaleAfter : Int := 30
def standardLogResolution : Int := 60
def standardHttpTimeout : UInt64 := 2000

/-- Where the configuration is looked for if no place is given. -/
def standardConfigPath : String := "/etc/halko/halko.toml"

/-- Why a configuration that has been read cannot be used. -/
inductive ConfigFault where
  | emptyServiceName
  | emptyBasePath
  | emptySensorUrl
  | emptyPowerUrl
  | shortTick (milliseconds : UInt64)
  | staleNotPositive
  | resolutionNotPositive
  | timeoutNotPositive
  | invertedBand (low high : Float32)
deriving DecidableEq, Repr

def ConfigFault.message : ConfigFault → String
  | emptyServiceName => "shared.service_name cannot be empty"
  | emptyBasePath => "base_path cannot be empty"
  | emptySensorUrl => "endpoints.sensorunit.url cannot be empty"
  | emptyPowerUrl => "endpoints.powerunit.url cannot be empty"
  | shortTick milliseconds =>
    "tick_length_ms " ++ toString milliseconds.toNat ++ " must be at least 1000"
  | staleNotPositive => "sensor_stale_after_s must be positive"
  | resolutionNotPositive => "log_resolution_s must be positive"
  | timeoutNotPositive => "http_timeout_ms must be positive"
  | invertedBand low high =>
    "defaults.min_delta_heating " ++ messageText low ++ " exceeds max_delta_heating " ++
      messageText high

/-- A text of blanks only. -/
def isBlankText (s : String) : Bool := trimBlank s.toList = []

/-- The service has a name. -/
def SharedConfig.check (shared : SharedConfig) : Except ConfigFault Unit :=
  if isBlankText shared.serviceName then throw .emptyServiceName else pure ()

/-- The configuration can be used; if not, its first fault. -/
def Config.check (config : Config) : Except ConfigFault Unit := do
  config.shared.check
  if isBlankText config.basePath then throw .emptyBasePath
  if isBlankText config.sensorUnit.address then throw .emptySensorUrl
  if isBlankText config.powerUnit.address then throw .emptyPowerUrl
  if config.tickLength < 1000 then throw (.shortTick config.tickLength)
  if config.staleAfter ≤ 0 then throw .staleNotPositive
  if config.logResolution ≤ 0 then throw .resolutionNotPositive
  if config.httpTimeout = 0 then throw .timeoutNotPositive
  if config.defaults.highDelta < config.defaults.lowDelta then
    throw (.invertedBand config.defaults.lowDelta config.defaults.highDelta)

open Document

namespace SharedConfig

def ofDocument? (format : Format) (d : Document) : Option SharedConfig := do
  match ← format.slots? [⟨"service_name", false⟩, ⟨"log_level", true⟩] d with
  | [serviceName, logLevel] =>
    return ⟨← required? text? serviceName,
      ← defaulted? .standard (fun d => format.label? d >>= LogLevel.ofLabel?) logLevel⟩
  | _ => none

def toDocument (shared : SharedConfig) : Document :=
  .record [("service_name", .text shared.serviceName), ("log_level", .text shared.logLevel.label)]

end SharedConfig

/-- An endpoint whose path has this name; `absent` is its path if none is given. -/
def Endpoint.ofDocument? (format : Format) (name absent : String) (d : Document) :
    Option Endpoint := do
  match ← format.slots? [⟨"url", false⟩, ⟨name, true⟩] d with
  | [address, path] => return ⟨← required? text? address, ← defaulted? absent text? path⟩
  | _ => none

/-- The sensor unit and the power unit. -/
def endpointsOfDocument? (format : Format) (d : Document) : Option (Endpoint × Endpoint) := do
  match ← format.slots? [⟨"sensorunit", false⟩, ⟨"powerunit", false⟩] d with
  | [sensorUnit, powerUnit] =>
    return (← required? (Endpoint.ofDocument? format "temperatures" "/temperatures") sensorUnit,
      ← required? (Endpoint.ofDocument? format "power" "/power") powerUnit)
  | _ => none

/-- The configuration in a document, not checked. -/
def Config.ofDocument? (format : Format) (d : Document) : Option Config := do
  match ← format.slots? [⟨"shared", false⟩, ⟨"base_path", false⟩, ⟨"tick_length_ms", true⟩,
      ⟨"sensor_stale_after_s", true⟩, ⟨"log_resolution_s", true⟩, ⟨"http_timeout_ms", true⟩,
      ⟨"endpoints", false⟩, ⟨"defaults", true⟩] d with
  | [shared, basePath, tickLength, staleAfter, logResolution, httpTimeout, endpoints, defaults] =>
    let (sensorUnit, powerUnit) ← required? (endpointsOfDocument? format) endpoints
    return {
      shared := ← required? (SharedConfig.ofDocument? format) shared
      basePath := ← required? text? basePath
      tickLength := ← defaulted? standardTickLength duration? tickLength
      staleAfter := ← defaulted? standardStaleAfter instant? staleAfter
      logResolution := ← defaulted? standardLogResolution instant? logResolution
      httpTimeout := ← defaulted? standardHttpTimeout duration? httpTimeout
      sensorUnit
      powerUnit
      defaults := ← defaulted? .standard (Defaults.ofDocument? format) defaults }
  | _ => none

end DryKiln
