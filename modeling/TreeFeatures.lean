import TreeFeatures.Assoc
import TreeFeatures.Text.Blank
import TreeFeatures.Text.Width
import TreeFeatures.Value
import TreeFeatures.Json.Reader
import TreeFeatures.Json.Writer
import TreeFeatures.Yaml.Token
import TreeFeatures.Yaml.Node
import TreeFeatures.Yaml.Document
import TreeFeatures.Settings.Sources
import TreeFeatures.FileTree
import TreeFeatures.Fault
import TreeFeatures.Settings.Load
import TreeFeatures.Availability
import TreeFeatures.Registry
import TreeFeatures.Bundled
import TreeFeatures.Editor.Call
import TreeFeatures.Features.Override
import TreeFeatures.Install.Gateway
import TreeFeatures.Install.Loop
import TreeFeatures.State
import TreeFeatures.World
import TreeFeatures.Features.Show
import TreeFeatures.Install.Discovery
import TreeFeatures.Install.Dispatch
import TreeFeatures.Enablement.Setup
import TreeFeatures.Enablement.Attach
import TreeFeatures.Enablement.Installed
import TreeFeatures.Install.Run
import TreeFeatures.Controller
import TreeFeatures.Command
import TreeFeatures.Shared
import TreeFeatures.About
import TreeFeatures.CommandLine.Run
import TreeFeatures.Script.Editor
import TreeFeatures.Script.Installer
import TreeFeatures.Script.Stage
import TreeFeatures.Value.Fields
import TreeFeatures.Script.Read
import TreeFeatures.Main
import TreeFeatures.Proofs.Keeps
import TreeFeatures.Proofs.Footprint
import TreeFeatures.Proofs.Install.Request
import TreeFeatures.Proofs.Enablement.Plan
import TreeFeatures.Proofs.Alike
import TreeFeatures.Proofs.Install.Advance
import TreeFeatures.Proofs.Run
import TreeFeatures.Proofs.Reached
import TreeFeatures.Proofs.Chronicle
import TreeFeatures.Proofs.Install.Ended
import TreeFeatures.Proofs.Install.SingleFlight
import TreeFeatures.Proofs.Install.Consent
import TreeFeatures.Proofs.Install.Delivery
import TreeFeatures.Proofs.Install.Calls
import TreeFeatures.Proofs.Enablement.Waiting
import TreeFeatures.Proofs.Enablement.Reporting
import TreeFeatures.Proofs.Features.Restore
import TreeFeatures.Proofs.Features.Originals
import TreeFeatures.Proofs.Features.Sharing
import TreeFeatures.Proofs.Enablement.Evidence
import TreeFeatures.Proofs.Enablement.Evolution
import TreeFeatures.Proofs.Enablement.Completion
import TreeFeatures.Proofs.Enablement.Containment
import TreeFeatures.Proofs.Enablement.Detached
import TreeFeatures.Proofs.Enablement.Bundled
import TreeFeatures.Proofs.Enablement.Stages
import TreeFeatures.Proofs.Enablement.OnDemand
import TreeFeatures.Proofs.Enablement.Preparation
import TreeFeatures.Proofs.Settings.Bodiless
import TreeFeatures.Proofs.Features.Toggle
import TreeFeatures.Proofs.Enablement.Locality
import TreeFeatures.Proofs.Enablement.Canvas
import TreeFeatures.Proofs.Enablement.Deferral
import TreeFeatures.Proofs.Install.Cancellation
import TreeFeatures.Proofs.Install.Nested
import TreeFeatures.Proofs.Enablement.Exchange
import TreeFeatures.Proofs.Enablement.Repetition
import TreeFeatures.Proofs.Install.Finding
import TreeFeatures.Proofs.Features.Parts
import TreeFeatures.Proofs.Features.Skipping
import TreeFeatures.Proofs.Features.Independence
import TreeFeatures.Proofs.Enablement.Attachment
import TreeFeatures.Proofs.Layout
import TreeFeatures.Proofs.Seeding
import TreeFeatures.Proofs.Commands
import TreeFeatures.Proofs.Console.Verbatim
import TreeFeatures.Proofs.CommandLine.Overview
