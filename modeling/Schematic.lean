import Schematic.Assignment
import Schematic.Circuit
import Schematic.Cli.Run
import Schematic.Demo
import Schematic.Evaluation
import Schematic.Gate
import Schematic.Json
import Schematic.Json.Encode
import Schematic.Main
import Schematic.Netlist
import Schematic.Netlist.Reachability
import Schematic.Proofs.Arguments
import Schematic.Proofs.Assignments
import Schematic.Proofs.ById
import Schematic.Proofs.Bytes
import Schematic.Proofs.Canvas
import Schematic.Proofs.Caps
import Schematic.Proofs.Components
import Schematic.Proofs.Cone
import Schematic.Proofs.Consistency
import Schematic.Proofs.Depth
import Schematic.Proofs.Diagnosis
import Schematic.Proofs.Feedback
import Schematic.Proofs.Fields
import Schematic.Proofs.History
import Schematic.Proofs.Indexing
import Schematic.Proofs.JsonReader
import Schematic.Proofs.Keys
import Schematic.Proofs.Knowledge
import Schematic.Proofs.LineByLine
import Schematic.Proofs.Lines
import Schematic.Proofs.NodeLines
import Schematic.Proofs.Parallel
import Schematic.Proofs.Pruning
import Schematic.Proofs.Recurrence
import Schematic.Proofs.Reordering
import Schematic.Proofs.RoundTrip
import Schematic.Proofs.SessionTexts
import Schematic.Proofs.Settling
import Schematic.Proofs.Strictness
import Schematic.Proofs.Text
import Schematic.Proofs.Wiring
import Schematic.Proofs.Words
import Schematic.Relaxation
import Schematic.Script.Parse
import Schematic.Script.Print
import Schematic.Session
import Schematic.View
import Schematic.Warning
import Schematic.Proofs.Declarable
import Schematic.Proofs.Frame
import Schematic.Proofs.Numbering
import Schematic.Proofs.Bounds
