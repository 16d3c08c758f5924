import DryKiln.Engine.Basic
import DryKiln.Main
import DryKiln.Proofs.Control.History
import DryKiln.Proofs.Control.Position
import DryKiln.Proofs.Control.Shutdown
import DryKiln.Proofs.Control.Trace
import DryKiln.Proofs.Run.Effects
import DryKiln.Proofs.Control.TurnOff
import DryKiln.Proofs.Run.Delivery
import DryKiln.Proofs.Run.Completion
import DryKiln.Proofs.Files.Names
import DryKiln.Proofs.Files.Tree
import DryKiln.Proofs.Storage.Places
import DryKiln.Proofs.Bench.Silence
import DryKiln.Proofs.Engine.Refusal
import DryKiln.Proofs.Engine.Lifecycle
import DryKiln.Proofs.Run.FileSteps
import DryKiln.Proofs.Run.Recovery
import DryKiln.Proofs.Run.Confinement
import DryKiln.Proofs.Document.Fields
import DryKiln.Proofs.Document.Programs
import DryKiln.Proofs.Document.RoundTrip
import DryKiln.Proofs.Storage.StoredProgram
import DryKiln.Proofs.Storage.History
import DryKiln.Proofs.Storage.TwoMaps
import DryKiln.Proofs.Json.Tokens
import DryKiln.Proofs.Program.Admission
import DryKiln.Proofs.Control.Percents
import DryKiln.Proofs.Control.Isolation
import DryKiln.Proofs.Control.Duration
import DryKiln.Proofs.Log.Refusals
import DryKiln.Proofs.Run.Chronicle
import DryKiln.Proofs.Control.Restart
import DryKiln.Proofs.Control.Calendar
import DryKiln.Proofs.Device.Feed
import DryKiln.Proofs.Run.Race
import DryKiln.Proofs.Run.Interplay
import DryKiln.Proofs.Bench.Mirror
import DryKiln.Proofs.Control.HardStop
import DryKiln.Proofs.Control.Leaving
import DryKiln.Proofs.Storage.Orphans
import DryKiln.Proofs.Storage.Obstacles
import DryKiln.Proofs.Log.ReadBack
import DryKiln.Proofs.Log.Gating
import DryKiln.Proofs.Control.Band
import DryKiln.Proofs.Control.ZeroGain
import DryKiln.Proofs.Program.Filling
import DryKiln.Proofs.Document.Methods
import DryKiln.Proofs.Run.Naming
