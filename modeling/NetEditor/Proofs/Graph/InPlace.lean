-- Edits carried out in place, one look, change and check after the other. What was written before
-- a failure stays written here, so it is a law that a failed edit has written nothing: the checks
-- that come after a change never fail.
import NetEditor.Proofs.Graph.Effect

namespace NetEditor.Graph.InPlace

/-- An edit that comes to a result or a failure, and in either case leaves what it has written. -/
abbrev Edit (α : Type) : Type := ExceptT Failure (StateM Graph) α

/-- The node that an edit is about. -/
def lookUp (id : NodeId) : Edit Node := do
  match (← get).node? id with
  | some node => pure node
  | none => throw (.nodeMissing id)

/-- Changes the graph and raises the revision. -/
def commit {α : Type} (change : Graph → α × Graph) : Edit α :=
  modifyGet fun g =>
    let (result, next) := change g
    (result, { next with revision := next.revision + 1 })

/-- Takes the first item for which a test holds out of a list. -/
def takeFirst {α : Type} (test : α → Bool) (items : List α) : Option α × List α :=
  match items.findIdx? test with
  | some i => (items[i]?, items.eraseIdx i)
  | none => (none, items)

def addNode (serial : Nat) (kind : Layer.Kind) : Edit Node := do
  let node := Node.initial (NodeId.numbered kind (serial + 1)) kind
  commit fun g => ((), { g with nodes := g.nodes ++ [node] })
  pure node

/-- The edges go first, and the node is only then looked for again. -/
def removeNode (id : NodeId) : Edit Node := do
  let _ ← lookUp id
  let removed ← commit fun g =>
    let (removed, nodes) := takeFirst (fun node => node.id = id) g.nodes
    (removed, { g with nodes := nodes, edges := g.edges.filter fun edge => !edge.touches id })
  match removed with
  | some node => pure node
  | none => throw (.nodeMissing id)

def moveNode (id : NodeId) (position : Position) : Edit Unit := do
  let _ ← lookUp id
  commit fun g =>
    ((), { g with nodes := updateNode id (fun node => { node with position := position }) g.nodes })

def patch (id : NodeId) (name : String) (value : Double) : Edit Patch := do
  let node ← lookUp id
  match node.record.set name value with
  | .error fault => pure (.rejected fault)
  | .ok record =>
    commit fun g =>
      ((), { g with nodes := updateNode id (fun node => { node with record := record }) g.nodes })
    let next ← get
    pure (.applied (if node.kind.outputKey = some name then next.hints id else []))

def patchText (id : NodeId) (name raw : String) : Edit Patch := do
  match typedNumber? raw with
  | some value => patch id name value
  | none =>
    let _ ← lookUp id
    pure (.rejected (.notNumeric name raw))

def connect (source target : NodeId) : Edit EdgeId := do
  let s ← lookUp source
  let t ← lookUp target
  match (← get).edgeBetween? source target with
  | some edge => pure edge.id
  | none =>
    match s.refusal? t with
    | some reason => throw (.connectionRefused s.kind t.kind reason)
    | none =>
      let edge := Edge.between source target
      commit fun g => ((), { g with edges := g.edges ++ [edge] })
      pure edge.id

/-- The edge is looked for again once the revision has been raised. -/
def disconnect (id : EdgeId) : Edit Edge := do
  match (← get).edge? id with
  | none => throw (.edgeMissing id)
  | some _ =>
    let removed ← commit fun g =>
      let (removed, edges) := takeFirst (fun edge => edge.id = id) g.edges
      (removed, { g with edges := edges })
    match removed with
    | some edge => pure edge
    | none => throw (.edgeMissing id)

def edit (serial : Nat) : Command → Edit Outcome
  | .addNode kind => .nodeAdded <$> addNode serial kind
  | .removeNode id => .nodeRemoved <$> removeNode id
  | .patch id name value => .patched <$> patch id name value
  | .patchText id name raw => .patched <$> patchText id name raw
  | .moveNode id position => (fun _ => .nodeMoved) <$> moveNode id position
  | .connect source target => .connected <$> connect source target
  | .disconnect id => .disconnected <$> disconnect id

/-- What came of an edit. -/
def conclude : Except Failure Outcome → Outcome
  | .ok outcome => outcome
  | .error reason => .failed reason

/-- Runs a command on a graph and says what came of it and what the graph is then. -/
def apply (g : Graph) (serial : Nat) (c : Command) : Outcome × Graph :=
  let ended := (edit serial c).run g
  (conclude ended.1, ended.2)

/-! ## Running an edit -/

section

variable {α β : Type} (g : Graph)

theorem get_run : (get : Edit Graph).run g = (.ok g, g) := rfl

theorem commit_run (change : Graph → α × Graph) :
    (commit change).run g =
      (.ok (change g).1, { (change g).2 with revision := (change g).2.revision + 1 }) := rfl

theorem bind_run (e : Edit α) (f : α → Edit β) :
    (e >>= f).run g = match e.run g with
      | (.ok a, next) => (f a).run next
      | (.error reason, next) => (.error reason, next) := by
  change (match e.run g with | (r, next) => ExceptT.bindCont f r next) = _
  rcases e.run g with ⟨_ | _, _⟩ <;> rfl

theorem map_run (f : α → β) (e : Edit α) :
    (f <$> e).run g = ((e.run g).1.map f, (e.run g).2) := by
  rw [← bind_pure_comp, bind_run]
  rcases e.run g with ⟨_ | _, _⟩ <;> rfl

theorem lookUp_run (id : NodeId) : (lookUp id).run g = match g.node? id with
    | some node => (.ok node, g)
    | none => (.error (.nodeMissing id), g) := by
  unfold lookUp
  simp only [bind_run, get_run]
  split <;> rfl

end

/-! ## The same edits at once -/

/-- The item that is found is the one that is taken. -/
theorem takeFirst_eq {α : Type} (test : α → Bool) (items : List α) :
    takeFirst test items = (items.find? test, items.eraseP test) := by
  unfold takeFirst
  induction items with
  | nil => rfl
  | cons item rest ih =>
    by_cases ht : test item = true
    · simp [List.findIdx?_cons, ht]
    · rw [List.findIdx?_cons, if_neg ht, List.find?_cons_of_neg ht, List.eraseP_cons_of_neg ht]
      cases hi : rest.findIdx? test with
      | none =>
        simp only [hi, Prod.mk.injEq] at ih
        simp [← ih.1, ← ih.2]
      | some i =>
        simp only [hi, Prod.mk.injEq] at ih
        simp [← ih.1, ← ih.2]

/-- How an edit ends in place if it gives a new graph or fails without one. -/
def ending {α : Type} (g : Graph) : Except Failure (α × Graph) → Except Failure α × Graph
  | .ok (result, next) => (.ok result, next)
  | .error reason => (.error reason, g)

variable (g : Graph)

/-- The node that was looked up is still there once its edges are gone. -/
theorem removeNode_run (id : NodeId) : (removeNode id).run g = ending g (g.removeNode id) := by
  unfold removeNode Graph.removeNode
  simp only [bind_run, lookUp_run]
  cases hn : g.node? id with
  | none => rfl
  | some node =>
    simp only [commit_run, takeFirst_eq]
    rw [← node?, hn]
    rfl

theorem moveNode_run (id : NodeId) (position : Position) :
    (moveNode id position).run g = ending g ((g.moveNode id position).map (Prod.mk ())) := by
  unfold moveNode Graph.moveNode
  simp only [bind_run, lookUp_run]
  cases g.node? id <;> rfl

theorem patch_run (id : NodeId) (name : String) (value : Double) :
    (patch id name value).run g = ending g (g.patch id name value) := by
  unfold patch Graph.patch
  simp only [bind_run, lookUp_run]
  cases g.node? id with
  | none => rfl
  | some node =>
    simp only
    cases node.record.set name value <;> rfl

theorem patchText_run (id : NodeId) (name raw : String) :
    (patchText id name raw).run g = ending g (g.patchText id name raw) := by
  unfold patchText Graph.patchText
  cases typedNumber? raw with
  | some value => exact patch_run g id name value
  | none =>
    simp only [bind_run, lookUp_run]
    cases g.node? id <;> rfl

theorem connect_run (source target : NodeId) :
    (connect source target).run g = ending g (g.connect source target) := by
  unfold connect Graph.connect
  simp only [bind_run, lookUp_run]
  cases g.node? source with
  | none => rfl
  | some s =>
    simp only
    cases g.node? target with
    | none => rfl
    | some t =>
      simp only [get_run]
      cases g.edgeBetween? source target with
      | some edge => rfl
      | none =>
        simp only
        cases s.refusal? t <;> rfl

/-- The edge that was looked for is still there once the revision is raised. -/
theorem disconnect_run (id : EdgeId) : (disconnect id).run g = ending g (g.disconnect id) := by
  unfold disconnect Graph.disconnect
  simp only [bind_run, get_run]
  cases he : g.edge? id with
  | none => rfl
  | some edge =>
    simp only [bind_run, commit_run, takeFirst_eq]
    rw [← edge?, he]
    rfl

theorem conclude_run {α : Type} {e : Edit α} {r : Except Failure (α × Graph)}
    (h : e.run g = ending g r) (done : α → Outcome) :
    (conclude ((done <$> e).run g).1, ((done <$> e).run g).2) = g.settle done r := by
  rw [map_run, h]
  rcases r with _ | ⟨_, _⟩ <;> rfl

/-- In place every command comes to the same outcome and the same graph. -/
theorem apply_eq (serial : Nat) (c : Command) : apply g serial c = g.apply serial c := by
  cases c with
  | addNode kind => rfl
  | removeNode id => exact conclude_run g (removeNode_run g id) .nodeRemoved
  | patch id name value => exact conclude_run g (patch_run g id name value) .patched
  | patchText id name raw => exact conclude_run g (patchText_run g id name raw) .patched
  | moveNode id position => exact conclude_run g (moveNode_run g id position) fun _ => .nodeMoved
  | connect source target => exact conclude_run g (connect_run g source target) .connected
  | disconnect id => exact conclude_run g (disconnect_run g id) .disconnected

end NetEditor.Graph.InPlace
