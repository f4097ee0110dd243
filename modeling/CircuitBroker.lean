import CircuitBroker.Amplitude
import CircuitBroker.Backend
import CircuitBroker.Circuit
import CircuitBroker.Circuit.Document
import CircuitBroker.CommandLine.Command
import CircuitBroker.CommandLine.Invocation
import CircuitBroker.CommandLine.Report
import CircuitBroker.CommandLine.Rule
import CircuitBroker.CommandLine.Words
import CircuitBroker.Counts
import CircuitBroker.Execution.Adapter
import CircuitBroker.Execution.Dispatch
import CircuitBroker.Execution.Job
import CircuitBroker.Execution.Request
import CircuitBroker.Execution.Result
import CircuitBroker.Execution.Schedule
import CircuitBroker.Execution.Task
import CircuitBroker.Failure
import CircuitBroker.Gate
import CircuitBroker.Gate.Param
import CircuitBroker.GateMatrix
import CircuitBroker.GateMatrix.Custom
import CircuitBroker.GateMatrix.Standard
import CircuitBroker.Json
import CircuitBroker.Json.Field
import CircuitBroker.Json.Parser
import CircuitBroker.Json.Printer
import CircuitBroker.Main
import CircuitBroker.Native
import CircuitBroker.Native.Assembly
import CircuitBroker.Native.Assembly.Gate
import CircuitBroker.Native.Assembly.Qasm2
import CircuitBroker.Native.Assembly.Qasm3
import CircuitBroker.Native.Functors
import CircuitBroker.Native.Functors.Call
import CircuitBroker.Native.Ion
import CircuitBroker.Native.Modifiers
import CircuitBroker.Native.Modifiers.Gate
import CircuitBroker.Native.Moments
import CircuitBroker.Native.Moments.Diagram
import CircuitBroker.Native.Moments.Gate
import CircuitBroker.Native.Moments.Library
import CircuitBroker.Native.Moments.Translation
import CircuitBroker.Proofs.Amplitude
import CircuitBroker.Proofs.Circuit.Contract
import CircuitBroker.Proofs.Circuit.Execution
import CircuitBroker.Proofs.Circuit.Measured
import CircuitBroker.Proofs.Circuit.Recorded
import CircuitBroker.Proofs.Circuit.RoundTrip
import CircuitBroker.Proofs.CommandLine.ShownOutcomes
import CircuitBroker.Proofs.Counts
import CircuitBroker.Proofs.Counts.Apportionment
import CircuitBroker.Proofs.Counts.Insertions
import CircuitBroker.Proofs.Counts.Occurrences
import CircuitBroker.Proofs.Counts.Sorted
import CircuitBroker.Proofs.Double
import CircuitBroker.Proofs.Execution.Completeness
import CircuitBroker.Proofs.Execution.Credentials
import CircuitBroker.Proofs.Execution.Deadline
import CircuitBroker.Proofs.Execution.Isolation
import CircuitBroker.Proofs.Execution.Observed
import CircuitBroker.Proofs.Execution.Polling
import CircuitBroker.Proofs.Execution.Transcript
import CircuitBroker.Proofs.GateMatrix.Algebra
import CircuitBroker.Proofs.GateMatrix.Identities
import CircuitBroker.Proofs.GateMatrix.Library
import CircuitBroker.Proofs.GateMatrix.Product
import CircuitBroker.Proofs.GateMatrix.Reference
import CircuitBroker.Proofs.GateMatrix.Sizes
import CircuitBroker.Proofs.GateMatrix.Tolerance
import CircuitBroker.Proofs.GateMatrix.Unitary
import CircuitBroker.Proofs.Native.Acceptance
import CircuitBroker.Proofs.Native.Agreement
import CircuitBroker.Proofs.Native.Assembly
import CircuitBroker.Proofs.Native.Assembly.Reading
import CircuitBroker.Proofs.Native.Assembly.Submission
import CircuitBroker.Proofs.Native.Functors.Calls
import CircuitBroker.Proofs.Native.Functors.Forms
import CircuitBroker.Proofs.Native.Functors.Inverse
import CircuitBroker.Proofs.Native.Functors.Translation
import CircuitBroker.Proofs.Native.Implementation
import CircuitBroker.Proofs.Native.Ion
import CircuitBroker.Proofs.Native.Measured
import CircuitBroker.Proofs.Native.Modifiers
import CircuitBroker.Proofs.Native.Modifiers.Statement
import CircuitBroker.Proofs.Native.Moments.Diagram
import CircuitBroker.Proofs.Native.Moments.Layout
import CircuitBroker.Proofs.Native.Moments.Packing
import CircuitBroker.Proofs.Native.Moments.Schedule
import CircuitBroker.Proofs.Native.Moments.Translation
import CircuitBroker.Proofs.Native.Runs
import CircuitBroker.Proofs.Native.Support
import CircuitBroker.Proofs.Native.Totality
import CircuitBroker.Proofs.Reordering
import CircuitBroker.Proofs.Scalar
import CircuitBroker.Proofs.Service.Listing
import CircuitBroker.Proofs.Service.Numbers
import CircuitBroker.Proofs.Service.Outcomes
import CircuitBroker.Proofs.Session.Building
import CircuitBroker.Proofs.Session.Comparison
import CircuitBroker.Proofs.Session.Keys
import CircuitBroker.Proofs.Session.Selection
import CircuitBroker.Proofs.Session.Translations
import CircuitBroker.Proofs.Settings.Precedence
import CircuitBroker.Proofs.Settings.Secrets
import CircuitBroker.Proofs.Simulation.Builder
import CircuitBroker.Proofs.Simulation.Decompositions
import CircuitBroker.Proofs.Simulation.Distribution
import CircuitBroker.Proofs.Simulation.Interactions
import CircuitBroker.Proofs.Simulation.Parts
import CircuitBroker.Proofs.Simulation.Possible
import CircuitBroker.Proofs.Simulation.Sampling
import CircuitBroker.Proofs.Simulation.ShotByShot
import CircuitBroker.Proofs.Simulation.Shots
import CircuitBroker.Proofs.Simulation.Steps
import CircuitBroker.Proofs.Simulation.UniformDraws
import CircuitBroker.Proofs.Statevector.Action
import CircuitBroker.Proofs.Statevector.Basis
import CircuitBroker.Proofs.Statevector.Collapse
import CircuitBroker.Proofs.Statevector.Controls
import CircuitBroker.Proofs.Statevector.Gate
import CircuitBroker.Proofs.Statevector.Index
import CircuitBroker.Proofs.Statevector.Inverse
import CircuitBroker.Proofs.Statevector.Quad
import CircuitBroker.Proofs.Statevector.Range
import CircuitBroker.Proofs.Statevector.Repeatable
import CircuitBroker.Proofs.Statevector.Turn
import CircuitBroker.Proofs.Statevector.Unitary
import CircuitBroker.Proofs.Text.Inspection
import CircuitBroker.Proofs.Text.Numeral
import CircuitBroker.Proofs.Traversal
import CircuitBroker.Scalar
import CircuitBroker.Service.Braket
import CircuitBroker.Service.Http
import CircuitBroker.Service.Ibm
import CircuitBroker.Service.Ion
import CircuitBroker.Service.Sample
import CircuitBroker.Service.Script
import CircuitBroker.Session
import CircuitBroker.Session.Comparison
import CircuitBroker.Session.Construction
import CircuitBroker.Settings
import CircuitBroker.Settings.Document
import CircuitBroker.Simulation.Draws
import CircuitBroker.Simulation.LoweredCircuit
import CircuitBroker.Simulation.Simulator
import CircuitBroker.Simulation.Statevector
import CircuitBroker.Surroundings
import CircuitBroker.Text.Decimal
import CircuitBroker.Text.Duration
import CircuitBroker.Text.Inspection
import CircuitBroker.Text.Letters
import CircuitBroker.Text.Lowercase
import CircuitBroker.Text.Numeral
import CircuitBroker.Text.Timestamp
import CircuitBroker.Text.Unprintable
import CircuitBroker.Word
import CircuitBroker.Yaml
import CircuitBroker.Yaml.Document
import CircuitBroker.Yaml.Place
import CircuitBroker.Yaml.Scalar.Block
import CircuitBroker.Yaml.Scalar.Plain
import CircuitBroker.Yaml.Scalar.Quoted
import CircuitBroker.Yaml.Tag
import CircuitBroker.Yaml.Token
