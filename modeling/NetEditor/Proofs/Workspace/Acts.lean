-- Acts: what is done in a workspace, one thing after the other. A graph that an act leaves was
-- there before, is blank, or is what a command made of the graph that was there.
import NetEditor.Proofs.Graph.Reachable
import NetEditor.Workspace
import Mathlib.Logic.Function.Basic

namespace NetEditor.Workspace

/-- Where a graph can be seen: on a sheet as it is now, or among those held back. -/
inductive View
  | sheet (key : String)
  | held (name : String)

def graph? (w : Workspace) : View → Option Graph
  | .sheet key => (w.sheets.get? key).map Sheet.graph
  | .held name => w.held.get? name

/-- One thing done in a workspace. -/
inductive Act
  | openSheet (key title : String)
  | copySheet (key copy : String)
  | hold (view : View) (name : String)
  | edit (key : String) (command : Command)

/-- The workspace after an act. What is not there cannot be copied, held or edited. -/
def act (w : Workspace) : Act → Workspace
  | .openSheet key title => w.openSheet key title
  | .copySheet key copy => (w.copySheet key copy).getD w
  | .hold view name => ((w.graph? view).map (w.hold name)).getD w
  | .edit key c => ((w.apply key c).map Prod.snd).getD w

/-- What an act comes to. Only of edits something is told. -/
def outcome? (w : Workspace) : Act → Option Outcome
  | .edit key c => (w.apply key c).map Prod.fst
  | _ => none

/-! ## The cases -/

/-- The workspace with another sheet under a key. -/
def withSheet (w : Workspace) (key : String) (sheet : Sheet) : Workspace :=
  { w with sheets := w.sheets.insert key sheet }

/-- The workspace after a command on one of its sheets. -/
def withCommand (w : Workspace) (key : String) (sheet : Sheet) (c : Command) : Workspace :=
  { serial := c.serialAfter w.serial
    sheets := w.sheets.insert key ⟨sheet.title, (sheet.graph.apply w.serial c).2⟩
    held := w.held }

/-- What the act is to copy, to hold or to edit is not there. -/
def Lacks (w : Workspace) : Act → Prop
  | .openSheet _ _ => False
  | .copySheet key _ | .edit key _ => w.sheets.get? key = none
  | .hold view _ => w.graph? view = none

variable {w : Workspace}

/-- An act comes to this and leaves this workspace. -/
inductive Did (w : Workspace) : Act → Option Outcome → Workspace → Prop
  | opened (key title : String) :
      Did w (.openSheet key title) none (w.withSheet key (.blank title))
  | copied {key : String} {sheet : Sheet} (copy : String) (h : w.sheets.get? key = some sheet) :
      Did w (.copySheet key copy) none (w.withSheet copy sheet)
  | held {view : View} {g : Graph} (name : String) (h : w.graph? view = some g) :
      Did w (.hold view name) none (w.hold name g)
  | edited {key : String} {sheet : Sheet} (c : Command) (h : w.sheets.get? key = some sheet) :
      Did w (.edit key c) (some (sheet.graph.apply w.serial c).1) (w.withCommand key sheet c)
  | idle {a : Act} (h : w.Lacks a) : Did w a none w

/-- A command runs on the graph of its sheet. -/
theorem apply_of_sheet {key : String} {sheet : Sheet} (h : w.sheets.get? key = some sheet)
    (c : Command) :
    w.apply key c = some ((sheet.graph.apply w.serial c).1, w.withCommand key sheet c) := by
  rw [apply, h]
  rfl

theorem did_act (w : Workspace) (a : Act) : Did w a (w.outcome? a) (w.act a) := by
  cases a with
  | openSheet key title => exact .opened key title
  | copySheet key copy =>
    simp only [act, outcome?, copySheet]
    cases hs : w.sheets.get? key with
    | none => exact .idle hs
    | some sheet => exact .copied copy hs
  | hold view name =>
    simp only [act, outcome?]
    cases hg : w.graph? view with
    | none => exact .idle hg
    | some g => exact .held name hg
  | edit key c =>
    cases hs : w.sheets.get? key with
    | none =>
      simp only [act, outcome?, apply, hs]
      exact .idle hs
    | some sheet =>
      simp only [act, outcome?, apply_of_sheet hs c]
      exact .edited c hs

theorem Did.serial_le {a : Act} {outcome : Option Outcome} {next : Workspace}
    (h : Did w a outcome next) : w.serial ≤ next.serial := by
  cases h with
  | edited c _ => exact c.le_serialAfter w.serial
  | _ => exact Nat.le_refl _

section

variable {key other : String} {sheet : Sheet} {c : Command}

@[simp] theorem graph?_withSheet_self :
    (w.withSheet key sheet).graph? (.sheet key) = some sheet.graph := by
  rw [graph?, withSheet, Dictionary.get?_insert_self]
  rfl

theorem graph?_withSheet_of_ne (h : other ≠ key) :
    (w.withSheet key sheet).graph? (.sheet other) = w.graph? (.sheet other) := by
  rw [graph?, withSheet, Dictionary.get?_insert_of_ne h, ← graph?]

@[simp] theorem graph?_withCommand_self :
    (w.withCommand key sheet c).graph? (.sheet key) =
      some (sheet.graph.apply w.serial c).2 := by
  rw [graph?, withCommand, Dictionary.get?_insert_self]
  rfl

theorem graph?_withCommand_of_ne (h : other ≠ key) :
    (w.withCommand key sheet c).graph? (.sheet other) = w.graph? (.sheet other) := by
  rw [graph?, withCommand, Dictionary.get?_insert_of_ne h, ← graph?]

theorem graph?_of_sheet (h : w.sheets.get? key = some sheet) :
    w.graph? (.sheet key) = some sheet.graph := by
  rw [graph?, h]
  rfl

end

/-! ## What an act leaves alone -/

/-- The act does not write to the sheet under this key. -/
def Act.Spares (key : String) : Act → Prop
  | .openSheet other _ | .copySheet _ other | .edit other _ => other ≠ key
  | .hold _ _ => True

theorem Did.graph?_of_spares {a : Act} {outcome : Option Outcome} {next : Workspace}
    (h : Did w a outcome next) {key : String} (hs : a.Spares key) :
    next.graph? (.sheet key) = w.graph? (.sheet key) := by
  cases h with
  | opened other title => exact graph?_withSheet_of_ne (Ne.symm hs)
  | copied copy _ => exact graph?_withSheet_of_ne (Ne.symm hs)
  | held name _ => rfl
  | edited c _ => exact graph?_withCommand_of_ne (Ne.symm hs)
  | idle _ => rfl

end NetEditor.Workspace
