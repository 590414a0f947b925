-- The law of naming. All sheets share one count, so that no name of a node is given twice in a
-- session: a name tells the kind of its node wherever it is met, and sheets that have nothing to do
-- with each other have no name in common.
import NetEditor.Proofs.Graph.AllOrNothing
import NetEditor.Proofs.Graph.History
import NetEditor.Proofs.Workspace.Acts

namespace NetEditor

namespace Command

/-- The command names this node, as the one it works on or as an end of a new connection. -/
def Names (id : NodeId) : Command → Prop
  | removeNode other | patch other _ _ | patchText other _ _ | moveNode other _ => other = id
  | connect source target => source = id ∨ target = id
  | addNode _ | disconnect _ => False

end Command

/-- A workspace with what was done in it so far. -/
structure Session where
  workspace : Workspace
  opened : Nat
  /-- To which opening the sheet under a key goes back, by copies of copies. -/
  origin : String → Nat
  removed : List Node

namespace Session

open Workspace (Act View)

def start (key : String) : Session := ⟨.start key, 1, fun _ => 0, []⟩

/-- A new sheet goes back to its own opening, and a copy to where the copied sheet goes back. -/
def originAfter (s : Session) : Act → String → Nat
  | .openSheet key _ => Function.update s.origin key s.opened
  | .copySheet key copy =>
    if (s.workspace.sheets.get? key).isSome then Function.update s.origin copy (s.origin key)
    else s.origin
  | _ => s.origin

def openedAfter (s : Session) : Act → Nat
  | .openSheet _ _ => s.opened + 1
  | _ => s.opened

def removedAfter (s : Session) (a : Act) : List Node :=
  match s.workspace.outcome? a with
  | some (.nodeRemoved node) => s.removed ++ [node]
  | _ => s.removed

def act (s : Session) (a : Act) : Session :=
  ⟨s.workspace.act a, s.openedAfter a, s.originAfter a, s.removedAfter a⟩

/-- The sessions that acts make of a workspace with one blank sheet. -/
inductive Reached : Session → Prop
  | start (key : String) : Reached (start key)
  | act {s : Session} (a : Act) : Reached s → Reached (s.act a)

/-- The node is on some sheet, in some graph held back, or was removed. -/
def Knows (s : Session) (node : Node) : Prop :=
  (∃ view g, s.workspace.graph? view = some g ∧ node ∈ g.nodes) ∨ node ∈ s.removed

/-! ## The names of a graph after a command -/

theorem mem_ids_apply {g : Graph} {serial : Nat} (h : g.Sound serial) {c : Command} {id : NodeId}
    (hm : id ∈ (g.apply serial c).2.nodes.map Node.id) :
    id ∈ g.nodes.map Node.id ∨ ∃ kind, id = NodeId.numbered kind (serial + 1) := by
  obtain ⟨node, hn, rfl⟩ := List.mem_map.mp hm
  cases Graph.Turn.origin (Graph.ran_turn g serial c) h hn with
  | made kind _ heq => exact Or.inr ⟨kind, congrArg Node.id heq⟩
  | kept old ho hid _ _ => exact Or.inl (hid ▸ List.mem_map_of_mem ho)
  | set old _ _ ho hid _ _ => exact Or.inl (hid ▸ List.mem_map_of_mem ho)

theorem mem_of_removed {g next : Graph} {serial : Nat} {c : Command} {outcome : Outcome}
    (h : g.Ran serial c outcome next) {node : Node} (hout : outcome = .nodeRemoved node) :
    node ∈ g.nodes := by
  cases h with
  | removed hn =>
    cases hout
    exact Graph.mem_of_node? hn
  | _ => cases hout

/-! ## The invariant -/

/-- Every graph is one that commands make, with no more nodes added than were counted. Removed nodes
have names from the count, and sheets of different origins have no name in common. -/
structure Orderly (s : Session) : Prop where
  reachable : ∀ view g, s.workspace.graph? view = some g → g.Reachable s.workspace.serial
  removed_numbered : ∀ node ∈ s.removed, ∃ n ≤ s.workspace.serial,
    node.id = NodeId.numbered node.kind n
  apart : ∀ key key' g g', s.workspace.graph? (.sheet key) = some g →
    s.workspace.graph? (.sheet key') = some g' → s.origin key ≠ s.origin key' →
    List.Disjoint (g.nodes.map Node.id) (g'.nodes.map Node.id)

variable {s : Session}

theorem orderly_start (key : String) : Orderly (start key) := by
  have hgraph : ∀ view g, (start key).workspace.graph? view = some g → g = .empty := by
    intro view g hg
    cases view with
    | sheet other =>
      simp only [start, Workspace.start, Workspace.graph?, Dictionary.get?, Option.map_eq_some_iff,
        List.lookup_cons] at hg
      obtain ⟨sheet, hs, rfl⟩ := hg
      split at hs
      · exact (Option.some.inj hs).symm ▸ rfl
      · simp at hs
    | held name => simp [start, Workspace.start, Workspace.graph?] at hg
  refine ⟨?_, by simp [start], fun _ _ _ _ _ _ hne => absurd rfl hne⟩
  intro view g hg
  rw [hgraph view g hg]
  exact .empty _

/-- Where the graph of a sheet comes from that an act leaves. -/
inductive Came (s : Session) (a : Act) (key : String) (g : Graph) : Prop
  | inherited (source : String) (h : s.workspace.graph? (.sheet source) = some g)
      (ho : s.originAfter a key = s.origin source)
  | blank (hg : g = .empty)
  | edited (c : Command) (old : Graph) (ha : a = .edit key c)
      (h : s.workspace.graph? (.sheet key) = some old)
      (hg : g = (old.apply s.workspace.serial c).2) (ho : s.originAfter a key = s.origin key)

theorem came {a : Act} {outcome : Option Outcome} {next : Workspace} {key : String} {g : Graph}
    (hdid : s.workspace.Did a outcome next) (h : next.graph? (.sheet key) = some g) :
    Came s a key g := by
  cases hdid with
  | opened other title =>
    by_cases hk : key = other
    · subst hk
      rw [Workspace.graph?_withSheet_self] at h
      exact .blank (Option.some.inj h).symm
    · rw [Workspace.graph?_withSheet_of_ne hk] at h
      exact .inherited key h (Function.update_of_ne hk _ _)
  | @copied source sheet copy hs =>
    have ho : s.originAfter (.copySheet source copy) =
        Function.update s.origin copy (s.origin source) := by
      simp [originAfter, hs]
    by_cases hk : key = copy
    · subst hk
      rw [Workspace.graph?_withSheet_self] at h
      refine .inherited source ((Workspace.graph?_of_sheet hs).trans h) ?_
      rw [ho, Function.update_self]
    · rw [Workspace.graph?_withSheet_of_ne hk] at h
      refine .inherited key h ?_
      rw [ho, Function.update_of_ne hk]
  | held name _ => exact .inherited key h rfl
  | @edited other sheet c hs =>
    by_cases hk : key = other
    · subst hk
      rw [Workspace.graph?_withCommand_self] at h
      exact .edited c _ rfl (Workspace.graph?_of_sheet hs) (Option.some.inj h).symm rfl
    · rw [Workspace.graph?_withCommand_of_ne hk] at h
      exact .inherited key h rfl
  | idle hlacks =>
    refine .inherited key h ?_
    cases a with
    | openSheet other title => exact hlacks.elim
    | copySheet source copy =>
      have hnone : s.workspace.sheets.get? source = none := hlacks
      simp [originAfter, hnone]
    | _ => rfl

theorem exists_view_of_held {a : Act} {outcome : Option Outcome} {next : Workspace} {name : String}
    {g : Graph} (hdid : s.workspace.Did a outcome next)
    (h : next.graph? (.held name) = some g) : ∃ view, s.workspace.graph? view = some g := by
  cases hdid with
  | @held view g' other hg =>
    by_cases hn : name = other
    · subst hn
      rw [Workspace.graph?, Workspace.hold, Dictionary.get?_insert_self] at h
      exact ⟨view, hg.trans h⟩
    · rw [Workspace.graph?, Workspace.hold, Dictionary.get?_insert_of_ne hn] at h
      exact ⟨.held name, h⟩
  | _ => exact ⟨.held name, h⟩

theorem serial_edit {key : String} {c : Command} {outcome : Option Outcome} {next : Workspace}
    {g : Graph} (hdid : s.workspace.Did (.edit key c) outcome next)
    (h : s.workspace.graph? (.sheet key) = some g) :
    next.serial = c.serialAfter s.workspace.serial := by
  cases hdid with
  | edited c hs => rfl
  | idle hlacks =>
    have hnone : s.workspace.sheets.get? key = none := hlacks
    simp [Workspace.graph?, hnone] at h

theorem exists_view_of_removed {a : Act} {outcome : Option Outcome} {next : Workspace} {node : Node}
    (hdid : s.workspace.Did a outcome next) (hout : outcome = some (.nodeRemoved node)) :
    ∃ view g, s.workspace.graph? view = some g ∧ node ∈ g.nodes := by
  cases hdid with
  | edited c hs =>
    exact ⟨_, _, Workspace.graph?_of_sheet hs,
      mem_of_removed (Graph.ran_apply _ _ c) (Option.some.inj hout)⟩
  | _ => simp at hout

theorem Orderly.sound (h : Orderly s) {view : View} {g : Graph}
    (hg : s.workspace.graph? view = some g) : g.Sound s.workspace.serial :=
  Graph.sound_of_reachable (h.reachable view g hg)

theorem Orderly.numbered (h : Orderly s) {node : Node} (hk : s.Knows node) :
    ∃ n ≤ s.workspace.serial, node.id = NodeId.numbered node.kind n := by
  rcases hk with ⟨view, g, hg, hm⟩ | hm
  · exact (h.sound hg).numbered (node.id, node.kind) (List.mem_map_of_mem hm)
  · exact h.removed_numbered node hm

theorem Orderly.disjoint_apply (h : Orderly s) {key key' : String} {g g' : Graph}
    (hg : s.workspace.graph? (.sheet key) = some g)
    (hg' : s.workspace.graph? (.sheet key') = some g') (hne : s.origin key ≠ s.origin key')
    (c : Command) :
    List.Disjoint ((g.apply s.workspace.serial c).2.nodes.map Node.id) (g'.nodes.map Node.id) := by
  intro id hm hm'
  rcases mem_ids_apply (h.sound hg) hm with hold | ⟨kind, rfl⟩
  · exact h.apart key key' g g' hg hg' hne hold hm'
  · rw [← Graph.roster_ids] at hm'
    exact (h.sound hg').next_notMem kind hm'

theorem knows_of_mem_removed {a : Act} {node : Node} (hm : node ∈ (s.act a).removed) :
    s.Knows node := by
  change node ∈ s.removedAfter a at hm
  unfold removedAfter at hm
  split at hm
  · rename_i removed hout
    rcases List.mem_append.mp hm with hm | hm
    · exact Or.inr hm
    · obtain rfl := List.mem_singleton.mp hm
      exact Or.inl (exists_view_of_removed (s.workspace.did_act a) hout)
  · exact Or.inr hm

theorem Orderly.reachable_act (h : Orderly s) {a : Act} {view : View} {g : Graph}
    (hg : (s.act a).workspace.graph? view = some g) : g.Reachable (s.act a).workspace.serial := by
  have hdid := s.workspace.did_act a
  have hle : s.workspace.serial ≤ (s.act a).workspace.serial := hdid.serial_le
  cases view with
  | sheet key =>
    cases came hdid hg with
    | inherited source hold _ => exact (h.reachable _ g hold).elsewhere hle
    | blank hempty => exact hempty ▸ .empty _
    | edited c old ha hold hnew _ =>
      subst ha
      have hserial : (s.act (.edit key c)).workspace.serial =
          c.serialAfter s.workspace.serial := serial_edit hdid hold
      rw [hnew, hserial]
      exact (h.reachable _ old hold).command c
  | held name =>
    obtain ⟨old, hold⟩ := exists_view_of_held hdid hg
    exact (h.reachable old g hold).elsewhere hle

/-- A sheet after an act is blank, or has the names and the origin of one before, or was edited
itself, and an act edits no two sheets. -/
theorem Orderly.apart_act (h : Orderly s) {a : Act} {key key' : String} {g g' : Graph}
    (hg : (s.act a).workspace.graph? (.sheet key) = some g)
    (hg' : (s.act a).workspace.graph? (.sheet key') = some g')
    (hne : (s.act a).origin key ≠ (s.act a).origin key') :
    List.Disjoint (g.nodes.map Node.id) (g'.nodes.map Node.id) := by
  have hdid := s.workspace.did_act a
  cases came hdid hg with
  | blank hempty => simp [hempty, Graph.empty]
  | inherited source hold ho =>
    cases came hdid hg' with
    | blank hempty => simp [hempty, Graph.empty]
    | inherited source' hold' ho' =>
      exact h.apart source source' g g' hold hold' (ho ▸ ho' ▸ hne)
    | edited c old ha hold' hnew ho' =>
      rw [hnew]
      exact List.disjoint_symm (h.disjoint_apply hold' hold (ho ▸ ho' ▸ Ne.symm hne) c)
  | edited c old ha hold hnew ho =>
    cases came hdid hg' with
    | blank hempty => simp [hempty, Graph.empty]
    | inherited source' hold' ho' =>
      rw [hnew]
      exact h.disjoint_apply hold hold' (ho ▸ ho' ▸ hne) c
    | edited c' old' ha' _ _ _ =>
      obtain ⟨hkey, _⟩ := Act.edit.inj (ha.symm.trans ha')
      exact absurd (congrArg (s.act a).origin hkey) hne

theorem Orderly.act (h : Orderly s) (a : Act) : Orderly (s.act a) := by
  refine ⟨fun _ _ => h.reachable_act, fun node hm => ?_, fun _ _ _ _ => h.apart_act⟩
  obtain ⟨n, hn, hid⟩ := h.numbered (knows_of_mem_removed hm)
  exact ⟨n, Nat.le_trans hn (s.workspace.did_act a).serial_le, hid⟩

theorem orderly_of_reached (h : Reached s) : Orderly s := by
  induction h with
  | start key => exact orderly_start key
  | act a _ ih => exact ih.act a

/-! ## Names of another sheet -/

/-- The command on the sheet fails for this reason, and everything stays as it was. -/
def FailsWith (w : Workspace) (key : String) (c : Command) (reason : Graph.Failure) : Prop :=
  ∃ next, w.apply key c = some (.failed reason, next) ∧ next.serial = w.serial ∧
    next.held = w.held ∧ ∀ other, next.sheets.get? other = w.sheets.get? other

theorem failsWith_of_blocked {w : Workspace} {key : String} {g : Graph}
    (hg : w.graph? (.sheet key) = some g) (hs : g.Sound w.serial) {c : Command}
    {reason : Graph.Failure} (hb : g.Blocked c reason) : FailsWith w key c reason := by
  obtain ⟨sheet, hsheet, rfl⟩ := Option.map_eq_some_iff.mp hg
  have hout := Graph.failed_of_blocked hs hb
  have hkept : (sheet.graph.apply w.serial c).2 = sheet.graph :=
    Graph.graph_of_not_success (Graph.ran_apply _ _ c) (by rw [hout]; rfl)
  have hserial : c.serialAfter w.serial = w.serial := by
    cases hb with
    | node hc _ => cases c <;> simp_all [Command.subject?, Command.serialAfter]
    | _ => rfl
  refine ⟨w.withCommand key sheet c, ?_, hserial, rfl, fun other => ?_⟩
  · rw [Workspace.apply_of_sheet hsheet, hout]
  · rw [Workspace.withCommand, hkept]
    by_cases hne : other = key
    · rw [hne, Dictionary.get?_insert_self, hsheet]
    · exact Dictionary.get?_insert_of_ne hne _ _

/-- A command that names a node which its graph does not have is blocked by a missing node. -/
theorem exists_blocked_of_names {g : Graph} {c : Command} {id : NodeId} (hc : c.Names id)
    (hid : id ∉ g.nodes.map Node.id) :
    ∃ missing, c.Names missing ∧ g.Blocked c (.nodeMissing missing) := by
  cases c with
  | addNode kind => exact hc.elim
  | disconnect edge => exact hc.elim
  | connect source target =>
    by_cases hs : source ∈ g.nodes.map Node.id
    · have ht : target ∉ g.nodes.map Node.id := by
        rcases hc with rfl | rfl
        · exact absurd hs hid
        · exact hid
      exact ⟨target, Or.inr rfl, .target hs ht⟩
    · exact ⟨source, Or.inl rfl, .source hs⟩
  | removeNode other => exact ⟨id, hc, .node (congrArg some hc) hid⟩
  | patch other name value => exact ⟨id, hc, .node (congrArg some hc) hid⟩
  | patchText other name raw => exact ⟨id, hc, .node (congrArg some hc) hid⟩
  | moveNode other position => exact ⟨id, hc, .node (congrArg some hc) hid⟩

/-- A graph has no edge that is named for a node which it does not have. -/
theorem blocked_disconnect {g : Graph} {serial : Nat} (h : g.Sound serial) {source target : NodeId}
    (hends : source ∉ g.nodes.map Node.id ∨ target ∉ g.nodes.map Node.id) :
    g.Blocked (.disconnect (EdgeId.between source target))
      (.edgeMissing (EdgeId.between source target)) := by
  refine .edge fun edge he hid => ?_
  obtain ⟨rfl, rfl⟩ := (h.edge_id_eq_between_iff he).mp hid
  obtain ⟨hs, ht⟩ := h.ends_listed edge he
  rw [Graph.roster_ids] at hs ht
  rcases hends with hsource | htarget
  · exact hsource hs
  · exact htarget ht

/-! ## The law -/

structure NamesApart (s : Session) : Prop where
  /-- Wherever a node is added, its name is the name of no node that is known. -/
  fresh : ∀ key g kind, s.workspace.graph? (.sheet key) = some g →
    ∃ node next, s.workspace.apply key (.addNode kind) = some (.nodeAdded node, next) ∧
      ∀ old, s.Knows old → old.id ≠ node.id
  one_kind : ∀ a b, s.Knows a → s.Knows b → a.id = b.id → a.kind = b.kind
  /-- Sheets that go back to different openings have no name in common. -/
  strangers : ∀ key key' g g', s.workspace.graph? (.sheet key) = some g →
    s.workspace.graph? (.sheet key') = some g' → s.origin key ≠ s.origin key' →
    List.Disjoint (g.nodes.map Node.id) (g'.nodes.map Node.id)
  /-- A command that names a node of a stranger fails for a missing node that it names. -/
  stranger_missing : ∀ key key' g g', s.workspace.graph? (.sheet key) = some g →
    s.workspace.graph? (.sheet key') = some g' → s.origin key ≠ s.origin key' →
    ∀ node ∈ g'.nodes, ∀ c : Command, c.Names node.id →
      ∃ missing, c.Names missing ∧ FailsWith s.workspace key c (.nodeMissing missing)
  /-- So does one that names an edge by a node of a stranger, for the missing edge. -/
  stranger_edge_missing : ∀ key key' g g', s.workspace.graph? (.sheet key) = some g →
    s.workspace.graph? (.sheet key') = some g' → s.origin key ≠ s.origin key' →
    ∀ node ∈ g'.nodes, ∀ source target, source = node.id ∨ target = node.id →
      FailsWith s.workspace key (.disconnect (EdgeId.between source target))
        (.edgeMissing (EdgeId.between source target))

/-- Whatever is done in a workspace, with sheets opened, copied, edited and held in any order, no
name of a node is given twice, and a sheet knows the nodes of another only if they go back to one
opening. -/
theorem a_name_is_given_only_once (s : Session) (h : Reached s) : NamesApart s := by
  have hs := orderly_of_reached h
  have hforeign : ∀ key key' g g', s.workspace.graph? (.sheet key) = some g →
      s.workspace.graph? (.sheet key') = some g' → s.origin key ≠ s.origin key' →
      ∀ node ∈ g'.nodes, node.id ∉ g.nodes.map Node.id := by
    intro key key' g g' hg hg' hne node hn hm
    exact hs.apart key key' g g' hg hg' hne hm (List.mem_map_of_mem hn)
  refine ⟨?_, ?_, hs.apart, ?_, ?_⟩
  · intro key g kind hg
    obtain ⟨sheet, hsheet, rfl⟩ := Option.map_eq_some_iff.mp hg
    refine ⟨_, _, Workspace.apply_of_sheet hsheet (.addNode kind), fun old hold heq => ?_⟩
    obtain ⟨n, hn, hid⟩ := hs.numbered hold
    have hnew := (NodeId.numbered_inj.mp (hid.symm.trans heq)).2
    omega
  · intro a b ha hb hid
    obtain ⟨m, _, hma⟩ := hs.numbered ha
    obtain ⟨n, _, hnb⟩ := hs.numbered hb
    exact (NodeId.numbered_inj.mp (hma.symm.trans (hid.trans hnb))).1
  · intro key key' g g' hg hg' hne node hn c hc
    obtain ⟨missing, hnames, hb⟩ :=
      exists_blocked_of_names hc (hforeign key key' g g' hg hg' hne node hn)
    exact ⟨missing, hnames, failsWith_of_blocked hg (hs.sound hg) hb⟩
  · intro key key' g g' hg hg' hne node hn source target hends
    have hid := hforeign key key' g g' hg hg' hne node hn
    refine failsWith_of_blocked hg (hs.sound hg) (blocked_disconnect (hs.sound hg) ?_)
    rcases hends with rfl | rfl
    · exact Or.inl hid
    · exact Or.inr hid

theorem Reached.play {s : Session} (h : Reached s) (acts : List Act) :
    Reached (acts.foldl Session.act s) := by
  induction acts generalizing s with
  | nil => exact h
  | cons a rest ih => exact ih (h.act a)

/-- A sheet with a copy that is edited apart, and a second sheet with a node of its own. -/
def copiedAndStrange : Session :=
  List.foldl act (start "main")
    [.edit "main" (.addNode .linear), .copySheet "main" "draft", .edit "draft" (.addNode .relu),
      .hold (.sheet "draft") "then", .edit "main" (.removeNode ⟨"linear_1"⟩),
      .openSheet "other" "other", .edit "other" (.addNode .linear)]

theorem a_stranger_does_not_find_the_copied_nodes :
    Reached copiedAndStrange ∧ NamesApart copiedAndStrange ∧
      copiedAndStrange.origin "main" = copiedAndStrange.origin "draft" ∧
      copiedAndStrange.removed.map Node.id = [⟨"linear_1"⟩] ∧
      ((copiedAndStrange.workspace.graph? (.sheet "draft")).map fun g => g.nodes.map Node.id) =
        some [⟨"linear_1"⟩, ⟨"relu_2"⟩] ∧
      (copiedAndStrange.workspace.apply "other" (.connect ⟨"linear_3"⟩ ⟨"relu_2"⟩)).map Prod.fst =
        some (.failed (.nodeMissing ⟨"relu_2"⟩)) := by
  have h : Reached copiedAndStrange := (Reached.start "main").play _
  exact ⟨h, a_name_is_given_only_once copiedAndStrange h, by decide +kernel, by decide +kernel,
    by decide +kernel, by decide +kernel⟩

end Session

end NetEditor
