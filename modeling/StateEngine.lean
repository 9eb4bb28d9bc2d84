import StateEngine.Act
import StateEngine.Fault
import StateEngine.Heap
import StateEngine.Json
import StateEngine.Line
import StateEngine.Line.Bench
import StateEngine.Logging.Files
import StateEngine.Logging.Pipeline
import StateEngine.Logging.Record
import StateEngine.Logging.Remarks
import StateEngine.Logging.Template
import StateEngine.Machine.Basic
import StateEngine.Machine.Creation
import StateEngine.Machine.Engine
import StateEngine.Machine.Firing
import StateEngine.Machine.History
import StateEngine.Machine.Models
import StateEngine.Machine.Operation
import StateEngine.Machine.Program
import StateEngine.Machine.Registry
import StateEngine.Machine.Script
import StateEngine.Machine.States
import StateEngine.Machine.World
import StateEngine.Number.Binary64
import StateEngine.Number.Rounded
import StateEngine.Number.Rounding
import StateEngine.Number.Shortest
import StateEngine.Settings.Environment
import StateEngine.Settings.Options
import StateEngine.Signature
import StateEngine.Spread
import StateEngine.Table
import StateEngine.Text.Blank
import StateEngine.Text.Printable
import StateEngine.Text.Uppercase
import StateEngine.Value.Basic
import StateEngine.Value.Equality
import StateEngine.Value.Text
import StateEngine.Proofs.Line.Desk
import StateEngine.Proofs.Line.Turns
import StateEngine.Proofs.Line.Order
import StateEngine.Proofs.Registry.Change
import StateEngine.Proofs.Registry.Firing
import StateEngine.Proofs.Registry.Registering
import StateEngine.Proofs.Registry.Reachable
import StateEngine.Proofs.Registry.Sound
import StateEngine.Proofs.Firing.Conduct
import StateEngine.Proofs.Firing.Plays
import StateEngine.Proofs.Firing.Processing
import StateEngine.Proofs.Firing.Order
import StateEngine.Proofs.Line.Idle
import StateEngine.Proofs.Firing.Passage
import StateEngine.Proofs.Firing.Commit
import StateEngine.Proofs.Echo
import StateEngine.Proofs.Queue.Alike
import StateEngine.Proofs.Queue.Echoes
import StateEngine.Proofs.Queue.Firing
import StateEngine.Proofs.Queue.Muted
import StateEngine.Proofs.Queue.Tandem
import StateEngine.Proofs.Queue.Refinement
import StateEngine.Proofs.Line.Failure
import StateEngine.Proofs.Registry.Filing
import StateEngine.Proofs.Registry.Removal
import StateEngine.Proofs.Firing.Amid
import StateEngine.Proofs.Firing.Closing
import StateEngine.Proofs.Registry.Lookup
import StateEngine.Proofs.Registry.Upkeep
import StateEngine.Proofs.Line.Direct
import StateEngine.Proofs.Lockstep
import StateEngine.Proofs.Binding.Besides
import StateEngine.Proofs.Binding.Abreast
import StateEngine.Proofs.Binding.Bystander
import StateEngine.Proofs.Going.Basic
import StateEngine.Proofs.Going.Firing
import StateEngine.Proofs.Going.Operations
import StateEngine.Proofs.Journey.Place
import StateEngine.Proofs.Journey.Bearing
import StateEngine.Proofs.Journey.Regard
import StateEngine.Proofs.Journey.Requests
import StateEngine.Proofs.Journey.Way
import StateEngine.Proofs.Journey.Underway
import StateEngine.Proofs.Journey.History
import StateEngine.Proofs.Journey.Whereabouts
import StateEngine.Proofs.Registry.Listing
import StateEngine.Proofs.Firing.Views
import StateEngine.Proofs.Standing.Basic
import StateEngine.Proofs.Standing.Requests
import StateEngine.Proofs.Standing.History
import StateEngine.Proofs.Registry.Reading
import StateEngine.Proofs.Routes.Basic
import StateEngine.Proofs.Routes.Adding
import StateEngine.Proofs.Routes.Tending
import StateEngine.Proofs.Routes.Requests
import StateEngine.Proofs.Firing.Ringing
import StateEngine.Proofs.Routes.Moving
import StateEngine.Proofs.Routes.History
import StateEngine.Proofs.Registry.Selection
import StateEngine.Proofs.Logging.Writing
import StateEngine.Proofs.Logging.Delivery
import StateEngine.Proofs.Conventions.Basic
import StateEngine.Proofs.Conventions.Calls
import StateEngine.Proofs.Conventions.Stage
import StateEngine.Proofs.Conventions.Methods
import StateEngine.Proofs.Conventions.History
import StateEngine.Proofs.Rows.Plan
import StateEngine.Proofs.Rows.Laying
import StateEngine.Proofs.Rows.Stepping
import StateEngine.Proofs.Rows.Visiting
import StateEngine.Proofs.Growth.Basic
import StateEngine.Proofs.Growth.Apace
import StateEngine.Proofs.Growth.Firing
import StateEngine.Proofs.Growth.Deciding
import StateEngine.Proofs.Growth.Hosts
import StateEngine.Proofs.Line.Lockstep
import StateEngine.Proofs.Growth.Later
import StateEngine.Proofs.Registry.Connecting
import StateEngine.Proofs.Rows.Indexed
import StateEngine.Proofs.Rows.Refusing
import StateEngine.Proofs.Roster.Trail
import StateEngine.Proofs.Roster.Requests
import StateEngine.Proofs.Roster.Rounds
import StateEngine.Proofs.Failing.Basic
import StateEngine.Proofs.Failing.AddingState
import StateEngine.Proofs.Failing.BindingModel
import StateEngine.Proofs.Registry.Forms
import StateEngine.Proofs.Firing.Inert
import StateEngine.Proofs.Stages.Lists
import StateEngine.Proofs.Stages.Running
import StateEngine.Proofs.Stages.Account
import StateEngine.Proofs.Stages.Processing
import StateEngine.Proofs.Stages.Choice
import StateEngine.Proofs.Callbacks.Names
import StateEngine.Proofs.Logging.Refusal
import StateEngine.Proofs.Settings.Blank
import StateEngine.Proofs.Json.Numerals
import StateEngine.Proofs.Json.Reading
import StateEngine.Proofs.Json.Showing
import StateEngine.Proofs.Logging.Lines
