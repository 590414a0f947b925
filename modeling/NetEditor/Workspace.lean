-- A workspace: several named sheets that are edited side by side, graphs held back from earlier
-- moments, and the one count of serial numbers that all sheets share, so that no name of a
-- node is ever given twice.
import NetEditor.Graph.Command
import NetEditor.Dictionary

namespace NetEditor

/-- A graph with a title. -/
structure Sheet where
  title : String
  graph : Graph
deriving DecidableEq

namespace Sheet

def plainTitle : String := "default_graph"

def blank (title : String) : Sheet := ⟨title, .empty⟩

/-- Runs a command; the title stays. -/
def apply (sheet : Sheet) (serial : Nat) (command : Command) : Outcome × Sheet :=
  let (outcome, graph) := sheet.graph.apply serial command
  (outcome, { sheet with graph := graph })

end Sheet

structure Workspace where
  serial : Nat
  sheets : Dictionary Sheet
  held : Dictionary Graph

namespace Workspace

/-- One blank sheet without a title of its own. -/
def start (key : String) : Workspace := ⟨0, [(key, .blank Sheet.plainTitle)], []⟩

def openSheet (w : Workspace) (key title : String) : Workspace :=
  { w with sheets := w.sheets.insert key (.blank title) }

/-- Copies a sheet; from then on the two are edited apart. -/
def copySheet (w : Workspace) (key copy : String) : Option Workspace :=
  (w.sheets.get? key).map fun sheet => { w with sheets := w.sheets.insert copy sheet }

/-- Holds a graph as it is now. -/
def hold (w : Workspace) (key : String) (graph : Graph) : Workspace :=
  { w with held := w.held.insert key graph }

def apply (w : Workspace) (key : String) (command : Command) : Option (Outcome × Workspace) :=
  (w.sheets.get? key).map fun sheet =>
    let (outcome, sheet) := sheet.apply w.serial command
    (outcome, { w with
      serial := command.serialAfter w.serial
      sheets := w.sheets.insert key sheet })

end Workspace

end NetEditor
