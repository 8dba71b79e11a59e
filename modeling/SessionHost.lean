import SessionHost.Client.Local
import SessionHost.Client.Request
import SessionHost.CommandLine.Run
import SessionHost.Console.Process
import SessionHost.Discovery.Finder
import SessionHost.Duration
import SessionHost.Failure
import SessionHost.Files.Disk
import SessionHost.Handshake
import SessionHost.Json.Record
import SessionHost.Launch.Command
import SessionHost.Main
import SessionHost.Path
import SessionHost.Platform
import SessionHost.Progress
import SessionHost.Proofs.Debug.CallingOff
import SessionHost.Proofs.Discovery.Configured
import SessionHost.Proofs.Discovery.Listings
import SessionHost.Proofs.Discovery.Started
import SessionHost.Proofs.Discovery.Widths
import SessionHost.Proofs.Disposal.Handling
import SessionHost.Proofs.Files.Trees
import SessionHost.Proofs.Frames.RoundTrip
import SessionHost.Proofs.Handshakes.Decoding
import SessionHost.Proofs.Launch.Banner
import SessionHost.Proofs.Launch.Encoding
import SessionHost.Proofs.Launch.Literals
import SessionHost.Proofs.Launching.Overtaking
import SessionHost.Proofs.Launching.Slowness
import SessionHost.Proofs.Ledger.Defaults
import SessionHost.Proofs.Ledger.Notices
import SessionHost.Proofs.Ledger.Suggestions
import SessionHost.Proofs.Ledger.Trace
import SessionHost.Proofs.Ledger.Updates
import SessionHost.Proofs.Lifecycle.Consoles
import SessionHost.Proofs.Lifecycle.Departure
import SessionHost.Proofs.Lifecycle.Overlap
import SessionHost.Proofs.Requests.Clearing
import SessionHost.Proofs.Settings.Updating
import SessionHost.Proofs.Signals.Busy
import SessionHost.Proofs.Signals.Opening
import SessionHost.Proofs.Signals.Presses
import SessionHost.Proofs.Signals.Routes
import SessionHost.Proofs.Versions.Grammar
import SessionHost.Rpc.Frame
import SessionHost.Rpc.Message
import SessionHost.Session.Move
import SessionHost.Session.Step
import SessionHost.Settings.ColdRestart
import SessionHost.Settings.Decode
import SessionHost.Settings.Report
import SessionHost.Settings.Store
import SessionHost.Shell.Program
import SessionHost.Simulation.Scenario
import SessionHost.Status
import SessionHost.Text.Blank
import SessionHost.Text.Decimal
import SessionHost.Text.Lowercase
import SessionHost.Text.Split
import SessionHost.Text.Utf8
import SessionHost.Toml.Render
import SessionHost.Version
