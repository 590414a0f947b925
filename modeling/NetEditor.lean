import NetEditor.Workspace
import NetEditor.Numeric.Format
import NetEditor.Training.Rehearsal
import NetEditor.Proofs.Graph.Reachable
import NetEditor.Proofs.Desk.Supersession
import NetEditor.Proofs.Desk.Retrieval
import NetEditor.Proofs.Conversion
import NetEditor.Proofs.Tensor.RoundTrip
import NetEditor.Proofs.Layer.Legality
import NetEditor.Proofs.Graph.History
import NetEditor.Proofs.Graph.Parameters
import NetEditor.Proofs.Graph.Staleness
import NetEditor.Proofs.Graph.AllOrNothing
import NetEditor.Proofs.Graph.Hints
import NetEditor.Proofs.Layer.Cells
import NetEditor.Proofs.Training.Entries
import NetEditor.Proofs.Training.Requests
import NetEditor.Proofs.Workspace.Acts
import NetEditor.Proofs.Workspace.Naming
import NetEditor.Proofs.Graph.Renaming
import NetEditor.Proofs.Workspace.Scripts
import NetEditor.Training.Exchange
import NetEditor.Proofs.Graph.Revision
import NetEditor.Proofs.Graph.Places
import NetEditor.Proofs.Training.Reports
import NetEditor.Proofs.Desk.Exchanges
import NetEditor.Proofs.Desk.Rehearsals
import NetEditor.Proofs.Lists
import NetEditor.Proofs.Sample.Grammar
import NetEditor.Proofs.Sample.Batches
import NetEditor.Proofs.Layer.Counts
import NetEditor.Proofs.Graph.Frame
import NetEditor.Proofs.Graph.Undoing
import NetEditor.Proofs.Graph.Commuting
import NetEditor.Proofs.Graph.Reconnecting
import NetEditor.Proofs.Text.Trimming
import NetEditor.Proofs.Text.Cutting
import NetEditor.Proofs.Sample.Tokens
import NetEditor.Proofs.Sample.Rows
import NetEditor.Proofs.Sample.Spoiling
import NetEditor.Proofs.Text.Lines
import NetEditor.Proofs.Sample.BlankLines
import NetEditor.Proofs.Tensor.Rectangles
import NetEditor.Proofs.Tensor.Rewriting
import NetEditor.Proofs.Training.Evenness
import NetEditor.Proofs.Training.Flattening
import NetEditor.Proofs.Training.Responses
import NetEditor.Proofs.Verdicts
import NetEditor.Proofs.Layer.Independence
import NetEditor.Proofs.Graph.Neighbours
import NetEditor.Proofs.Graph.Lookup
