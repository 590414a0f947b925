-- The law of scripts. A script is a list of commands for one sheet that name nodes by the order in
-- which they are made. Wherever the count of serial numbers starts and whatever is done to other
-- sheets meanwhile, a script draws the same, up to the names of the nodes.
import NetEditor.Proofs.Graph.Renaming
import NetEditor.Proofs.Workspace.Acts

namespace NetEditor

/-! ## Scripts -/

/-- A command that names each node by its place among the nodes made so far, and an edge by its
ends. -/
inductive Instruction
  | addNode (kind : Layer.Kind)
  | removeNode (node : Nat)
  | patch (node : Nat) (name : String) (value : Double)
  | patchText (node : Nat) (name raw : String)
  | moveNode (node : Nat) (position : Position)
  | connect (source target : Nat)
  | disconnect (source target : Nat)

/-- The command that an instruction is, where all nodes that it speaks of were made. -/
def Instruction.command? (names : List NodeId) : Instruction → Option Command
  | addNode kind => some (.addNode kind)
  | removeNode node => names[node]?.map .removeNode
  | patch node name value => names[node]?.map fun id => .patch id name value
  | patchText node name raw => names[node]?.map fun id => .patchText id name raw
  | moveNode node position => names[node]?.map fun id => .moveNode id position
  | connect source target =>
    names[source]?.bind fun s => names[target]?.map fun t => .connect s t
  | disconnect source target =>
    names[source]?.bind fun s => names[target]?.map fun t => .disconnect (.between s t)

/-- The name that an outcome gives to a new node. -/
def Outcome.newNames : Outcome → List NodeId
  | nodeAdded node => [node.id]
  | _ => []

/-- A workspace in which a script is carried out, with the names of the nodes that were made for it
so far, in order. -/
structure Drafting where
  workspace : Workspace
  names : List NodeId

namespace Drafting

open Workspace (Act)

/-- What came of an instruction: its outcome, if there was a command to run, and the graph of the
sheet after it. -/
structure Result where
  outcome : Option Outcome
  graph : Option Graph

/-- Carries out an instruction on the sheet under a key. One that speaks of a node that was not made
is passed over. -/
def perform (key : String) (d : Drafting) (i : Instruction) : Option Outcome × Drafting :=
  match (i.command? d.names).bind (d.workspace.apply key) with
  | some (outcome, next) => (some outcome, ⟨next, d.names ++ outcome.newNames⟩)
  | none => (none, d)

/-- Other things are done in the workspace. -/
def interrupt (d : Drafting) (acts : List Act) : Drafting :=
  { d with workspace := acts.foldl Workspace.act d.workspace }

/-- Carries out a script; before each instruction other things are done. -/
def follow (key : String) (d : Drafting) : List (List Act × Instruction) → List Result × Drafting
  | [] => ([], d)
  | (acts, i) :: rest =>
    let (outcome, next) := (d.interrupt acts).perform key i
    let (results, last) := next.follow key rest
    (⟨outcome, next.workspace.graph? (.sheet key)⟩ :: results, last)

end Drafting

/-! ## The names that a script gives -/

/-- The name that a command gives to a new node. -/
def Command.newNames (serial : Nat) : Command → List NodeId
  | addNode kind => [NodeId.numbered kind (serial + 1)]
  | _ => []

namespace Graph

theorem newNames_settle {α : Type} {g : Graph} {done : α → Outcome}
    (h : ∀ a, (done a).newNames = []) (r : Except Failure (α × Graph)) :
    (g.settle done r).1.newNames = [] := by
  cases r with
  | ok result => exact h result.1
  | error reason => rfl

theorem newNames_apply (g : Graph) (serial : Nat) (c : Command) :
    (g.apply serial c).1.newNames = c.newNames serial := by
  cases c with
  | addNode kind => rfl
  | _ => exact newNames_settle (fun _ => rfl) _

end Graph

namespace Drafting

open Workspace (Act)

variable {d d' : Drafting} {key key' : String} {i : Instruction}

/-- The command runs on the graph of the sheet and gives the next name, if any. -/
theorem perform_of_command {g : Graph} {c : Command}
    (hg : d.workspace.graph? (.sheet key) = some g) (hc : i.command? d.names = some c) :
    ∃ next, d.perform key i = (some (g.apply d.workspace.serial c).1,
        ⟨next, d.names ++ c.newNames d.workspace.serial⟩) ∧
      next.graph? (.sheet key) = some (g.apply d.workspace.serial c).2 ∧
      next.serial = c.serialAfter d.workspace.serial := by
  obtain ⟨sheet, hs, rfl⟩ := Option.map_eq_some_iff.mp hg
  refine ⟨d.workspace.withCommand key sheet c, ?_, Workspace.graph?_withCommand_self, rfl⟩
  rw [perform, hc, Option.bind_some, Workspace.apply_of_sheet hs, ← Graph.newNames_apply]

theorem perform_of_no_command (hc : i.command? d.names = none) : d.perform key i = (none, d) := by
  rw [perform, hc]
  rfl

/-- An instruction leaves all as it was, or it is a command that gives the next name or none. -/
theorem perform_cases (key : String) (d : Drafting) (i : Instruction) :
    d.perform key i = (none, d) ∨ ∃ c : Command,
      (d.perform key i).2.names = d.names ++ c.newNames d.workspace.serial ∧
      (d.perform key i).2.workspace.serial = c.serialAfter d.workspace.serial := by
  cases hc : i.command? d.names with
  | none => exact Or.inl (perform_of_no_command hc)
  | some c =>
    cases hg : d.workspace.graph? (.sheet key) with
    | none =>
      left
      rw [perform, hc, Option.bind_some, Workspace.apply, Option.map_eq_none_iff.mp hg]
      rfl
    | some g =>
      obtain ⟨next, heq, _, hserial⟩ := perform_of_command hg hc
      rw [heq]
      exact Or.inr ⟨c, rfl, hserial⟩

/-- The names are distinct, and the count gave them all. -/
structure Tidy (d : Drafting) : Prop where
  nodup : d.names.Nodup
  counted : ∀ id ∈ d.names, ∃ kind, ∃ n ≤ d.workspace.serial, id = NodeId.numbered kind n

theorem serial_le_interrupt (d : Drafting) (acts : List Act) :
    d.workspace.serial ≤ (d.interrupt acts).workspace.serial := by
  induction acts generalizing d with
  | nil => exact Nat.le_refl _
  | cons a rest ih =>
    exact Nat.le_trans (d.workspace.did_act a).serial_le (ih ⟨d.workspace.act a, d.names⟩)

theorem Tidy.isNumbered (h : d.Tidy) : ∀ id ∈ d.names, id.IsNumbered := fun id hid =>
  have ⟨kind, n, _, heq⟩ := h.counted id hid
  ⟨kind, n, heq⟩

theorem Tidy.interrupt (h : d.Tidy) (acts : List Act) : (d.interrupt acts).Tidy := by
  refine ⟨h.nodup, fun id hid => ?_⟩
  obtain ⟨kind, n, hn, heq⟩ := h.counted id hid
  exact ⟨kind, n, Nat.le_trans hn (d.serial_le_interrupt acts), heq⟩

/-- The next name of the count was not given before. -/
theorem Tidy.next_notMem (h : d.Tidy) (kind : Layer.Kind) :
    NodeId.numbered kind (d.workspace.serial + 1) ∉ d.names := by
  intro hm
  obtain ⟨_, n, hn, heq⟩ := h.counted _ hm
  have hserial := (NodeId.numbered_inj.mp heq).2
  omega

theorem Tidy.perform (h : d.Tidy) (key : String) (i : Instruction) : (d.perform key i).2.Tidy := by
  rcases perform_cases key d i with heq | ⟨c, hnames, hserial⟩
  · rw [heq]
    exact h
  · have hle : d.workspace.serial ≤ (d.perform key i).2.workspace.serial :=
      hserial ▸ c.le_serialAfter _
    have hold : ∀ id ∈ d.names, ∃ kind, ∃ n ≤ (d.perform key i).2.workspace.serial,
        id = NodeId.numbered kind n := fun id hid =>
      have ⟨kind, n, hn, heq⟩ := h.counted id hid
      ⟨kind, n, Nat.le_trans hn hle, heq⟩
    cases c with
    | addNode kind =>
      have hnodup := List.concat_eq_append ▸ h.nodup.concat (h.next_notMem kind)
      refine ⟨hnames ▸ hnodup, fun id hid => ?_⟩
      rw [hnames] at hid
      rcases List.mem_append.mp hid with hid | hid
      · exact hold id hid
      · exact ⟨kind, _, Nat.le_of_eq hserial.symm, List.mem_singleton.mp hid⟩
    | _ =>
      have hsame : (d.perform key i).2.names = d.names := hnames.trans (List.append_nil _)
      exact ⟨hsame ▸ h.nodup, hsame ▸ hold⟩

theorem Tidy.follow (h : d.Tidy) (key : String) (plan : List (List Act × Instruction)) :
    (d.follow key plan).2.Tidy := by
  induction plan generalizing d with
  | nil => exact h
  | cons turn rest ih => exact ih ((h.interrupt turn.1).perform key turn.2)

theorem isPrefix_perform (key : String) (d : Drafting) (i : Instruction) :
    d.names <+: (d.perform key i).2.names := by
  rcases perform_cases key d i with heq | ⟨c, hnames, _⟩
  · simp only [heq, List.prefix_refl]
  · exact hnames ▸ List.prefix_append _ _

theorem isPrefix_follow (key : String) (d : Drafting) (plan : List (List Act × Instruction)) :
    d.names <+: (d.follow key plan).2.names := by
  induction plan generalizing d with
  | nil => exact List.prefix_refl _
  | cons turn rest ih =>
    exact (isPrefix_perform key (d.interrupt turn.1) turn.2).trans (ih _)

end Drafting

/-! ## Names by order -/

/-- The names of one node each, by the order in which the nodes were made. -/
def Named (names names' : List NodeId) : Pairing := fun id id' =>
  ∃ i : Nat, names[i]? = some id ∧ names'[i]? = some id'

variable {names names' : List NodeId}

theorem Named.extend {more more' : List NodeId} {id id' : NodeId} (h : Named names names' id id')
    (hm : names <+: more) (hm' : names' <+: more') : Named more more' id id' := by
  obtain ⟨i, hi, hi'⟩ := h
  obtain ⟨_, rfl⟩ := hm
  obtain ⟨_, rfl⟩ := hm'
  refine ⟨i, ?_, ?_⟩
  · rw [List.getElem?_append_left (List.getElem?_eq_some_iff.mp hi).1, hi]
  · rw [List.getElem?_append_left (List.getElem?_eq_some_iff.mp hi').1, hi']

theorem named_concat (h : names.length = names'.length) (id id' : NodeId) :
    Named (names ++ [id]) (names' ++ [id']) id id' :=
  ⟨names.length, List.getElem?_concat_length, h ▸ List.getElem?_concat_length⟩

theorem eq_of_getElem?_of_nodup {α : Type} {items : List α} (h : items.Nodup) {i j : Nat} {a : α}
    (hi : items[i]? = some a) (hj : items[j]? = some a) : i = j := by
  have hlt : i < items.length := (List.getElem?_eq_some_iff.mp hi).1
  exact (List.getElem?_inj hlt h).mp (hi.trans hj.symm)

theorem oneToOne_named (h : names.Nodup) (h' : names'.Nodup) (hn : ∀ id ∈ names, id.IsNumbered)
    (hn' : ∀ id ∈ names', id.IsNumbered) : (Named names names').OneToOne := by
  refine ⟨?_, ?_⟩
  · rintro a a' b b' ⟨i, hi, hi'⟩ ⟨j, hj, hj'⟩
    constructor
    · rintro rfl
      obtain rfl := eq_of_getElem?_of_nodup h hi hj
      exact Option.some.inj (hi'.symm.trans hj')
    · rintro rfl
      obtain rfl := eq_of_getElem?_of_nodup h' hi' hj'
      exact Option.some.inj (hi.symm.trans hj)
  · rintro a a' ⟨i, hi, hi'⟩
    exact ⟨hn a (List.mem_of_getElem? hi), hn' a' (List.mem_of_getElem? hi')⟩

/-! ## One script in two workspaces -/

section

variable {α β γ δ : Type} {S : α → β → Prop} {T : γ → δ → Prop} {a : Option α} {b : Option β}

theorem option_rel_map (h : Option.Rel S a b) {f : α → γ} {f' : β → δ}
    (hf : ∀ x y, S x y → T (f x) (f' y)) : Option.Rel T (a.map f) (b.map f') := by
  cases h with
  | none => exact .none
  | some hxy => exact .some (hf _ _ hxy)

theorem option_rel_bind (h : Option.Rel S a b) {f : α → Option γ} {f' : β → Option δ}
    (hf : ∀ x y, S x y → Option.Rel T (f x) (f' y)) : Option.Rel T (a.bind f) (b.bind f') := by
  cases h with
  | none => exact .none
  | some hxy => exact hf _ _ hxy

end

variable {R : Pairing}

theorem named_getElem? (h : names.length = names'.length)
    (hR : ∀ id id', Named names names' id id' → R id id') (i : Nat) :
    Option.Rel R names[i]? names'[i]? := by
  by_cases hi : i < names.length
  · have hi' : i < names'.length := h ▸ hi
    rw [List.getElem?_eq_getElem hi, List.getElem?_eq_getElem hi']
    exact .some (hR _ _ ⟨i, List.getElem?_eq_getElem hi, List.getElem?_eq_getElem hi'⟩)
  · rw [List.getElem?_eq_none (Nat.le_of_not_lt hi),
      List.getElem?_eq_none (h ▸ Nat.le_of_not_lt hi)]
    exact .none

/-- An instruction is the same command on both sheets, or none on both. -/
theorem command?_renamed (h : names.length = names'.length)
    (hR : ∀ id id', Named names names' id id' → R id id') (i : Instruction) :
    Option.Rel (Command.Renamed R) (i.command? names) (i.command? names') := by
  have hat := named_getElem? h hR
  cases i with
  | addNode kind => exact .some (.addNode kind)
  | removeNode node => exact option_rel_map (hat node) fun _ _ => .removeNode
  | patch node name value => exact option_rel_map (hat node) fun _ _ => .patch name value
  | patchText node name raw => exact option_rel_map (hat node) fun _ _ => .patchText name raw
  | moveNode node position => exact option_rel_map (hat node) fun _ _ => .moveNode position
  | connect source target =>
    exact option_rel_bind (hat source) fun _ _ hs =>
      option_rel_map (hat target) fun _ _ ht => .connect hs ht
  | disconnect source target =>
    exact option_rel_bind (hat source) fun s s' hs =>
      option_rel_map (hat target) fun t t' ht => .disconnect ⟨s, s', t, t', hs, ht, rfl, rfl⟩

theorem Command.Renamed.length_newNames {c c' : Command} (hc : c.Renamed R c')
    (h : names.length = names'.length) {serial serial' : Nat} :
    (names ++ c.newNames serial).length = (names' ++ c'.newNames serial').length := by
  cases hc <;> simp [Command.newNames, h]

namespace Drafting

open Workspace (Act)

/-- Graphs are on both sheets, and differ only in names. -/
def DrawnAlike (R : Pairing) (g g' : Option Graph) : Prop :=
  ∃ a b, g = some a ∧ g' = some b ∧ a.Renamed R b

structure Result.Renamed (R : Pairing) (a b : Result) : Prop where
  outcome : Option.Rel (Outcome.Renamed R) a.outcome b.outcome
  graph : DrawnAlike R a.graph b.graph

/-- As many nodes were made in both workspaces, and the sheets differ only in names. -/
structure Alike (R : Pairing) (key key' : String) (d d' : Drafting) : Prop where
  length : d.names.length = d'.names.length
  graph : DrawnAlike R (d.workspace.graph? (.sheet key)) (d'.workspace.graph? (.sheet key'))

variable {d d' : Drafting} {key key' : String}

/-- What is done to other sheets leaves this one alone. -/
theorem graph?_interrupt {acts : List Act} (h : ∀ a ∈ acts, a.Spares key) (d : Drafting) :
    (d.interrupt acts).workspace.graph? (.sheet key) = d.workspace.graph? (.sheet key) := by
  induction acts generalizing d with
  | nil => rfl
  | cons a rest ih =>
    rw [List.forall_mem_cons] at h
    exact (ih h.2 ⟨d.workspace.act a, d.names⟩).trans
      ((d.workspace.did_act a).graph?_of_spares h.1)

theorem Alike.interrupt (h : Alike R key key' d d') {acts acts' : List Act}
    (hs : ∀ a ∈ acts, a.Spares key) (hs' : ∀ a ∈ acts', a.Spares key') :
    Alike R key key' (d.interrupt acts) (d'.interrupt acts') := by
  refine ⟨h.length, ?_⟩
  rw [graph?_interrupt hs, graph?_interrupt hs']
  exact h.graph

theorem Alike.perform (h : Alike R key key' d d') (hR : R.OneToOne) (i : Instruction)
    (hnames : ∀ id id', Named (d.perform key i).2.names (d'.perform key' i).2.names id id' →
      R id id') :
    Option.Rel (Outcome.Renamed R) (d.perform key i).1 (d'.perform key' i).1 ∧
      Alike R key key' (d.perform key i).2 (d'.perform key' i).2 := by
  have hold : ∀ id id', Named d.names d'.names id id' → R id id' := fun id id' hid =>
    hnames id id' (hid.extend (isPrefix_perform key d i) (isPrefix_perform key' d' i))
  obtain ⟨g, g', hg, hg', hgraph⟩ := h.graph
  rcases option_rel_cases (command?_renamed h.length hold i) with
    ⟨hc, hc'⟩ | ⟨c, c', hc, hc', hren⟩
  · rw [perform_of_no_command hc, perform_of_no_command hc']
    exact ⟨.none, h⟩
  · obtain ⟨next, heq, hnext, _⟩ := perform_of_command hg hc
    obtain ⟨next', heq', hnext', _⟩ := perform_of_command hg' hc'
    rw [heq, heq'] at hnames ⊢
    have hnew : Graph.NewRenamed R d.workspace.serial d'.workspace.serial c := by
      cases hren with
      | addNode kind => exact hnames _ _ (named_concat h.length _ _)
      | _ => trivial
    obtain ⟨hout, hgraphs⟩ := Graph.apply_renamed hgraph hR hren hnew
    exact ⟨.some hout, hren.length_newNames h.length, _, _, hnext, hnext', hgraphs⟩

/-- A turn of a script carries out one instruction after other things that spare the sheet. -/
theorem Alike.follow (hR : R.OneToOne) {plan plan' : List (List Act × Instruction)}
    (hsame : plan.map Prod.snd = plan'.map Prod.snd)
    (hs : ∀ turn ∈ plan, ∀ a ∈ turn.1, a.Spares key)
    (hs' : ∀ turn ∈ plan', ∀ a ∈ turn.1, a.Spares key')
    (hnames : ∀ id id', Named (d.follow key plan).2.names (d'.follow key' plan').2.names id id' →
      R id id') (h : Alike R key key' d d') :
    List.Forall₂ (Result.Renamed R) (d.follow key plan).1 (d'.follow key' plan').1 ∧
      Alike R key key' (d.follow key plan).2 (d'.follow key' plan').2 := by
  induction plan generalizing d d' plan' with
  | nil =>
    obtain rfl := List.map_eq_nil_iff.mp hsame.symm
    exact ⟨.nil, h⟩
  | cons turn rest ih =>
    obtain ⟨turn', rest', rfl, hturn, hrest⟩ := List.map_eq_cons_iff.mp hsame.symm
    rw [List.forall_mem_cons] at hs hs'
    obtain ⟨acts, i⟩ := turn
    obtain ⟨acts', i'⟩ := turn'
    obtain rfl : i' = i := hturn
    -- the names after this turn begin those at the end
    obtain ⟨hout, hnext⟩ := (h.interrupt hs.1 hs'.1).perform hR i' fun id id' hid =>
      hnames id id' (hid.extend (isPrefix_follow key _ rest) (isPrefix_follow key' _ rest'))
    obtain ⟨hresults, hlast⟩ := ih hrest.symm hs.2 hs'.2 hnames hnext
    exact ⟨.cons ⟨hout, hnext.graph⟩ hresults, hlast⟩

/-- As many nodes were made in two runs, each under a name of its own. Each instruction came to the
same in both and left the same graph, with every node renamed to the one that was made in its turn
in the other run, and with every edge named for its renamed ends. -/
structure SameUpToNames (run run' : List Result × Drafting) : Prop where
  nodup : run.2.names.Nodup
  nodup' : run'.2.names.Nodup
  length : run.2.names.length = run'.2.names.length
  results : List.Forall₂ (Result.Renamed (Named run.2.names run'.2.names)) run.1 run'.1

/-- A drafting in which nothing was made so far. -/
def fresh (w : Workspace) : Drafting := ⟨w, []⟩

theorem tidy_fresh (w : Workspace) : (fresh w).Tidy := ⟨List.nodup_nil, by simp [fresh]⟩

/-- A script that is carried out on two blank sheets draws the same up to the names of the nodes,
wherever the counts of the two workspaces start and whatever is done meanwhile that does not write
to these sheets. -/
theorem a_script_draws_the_same_up_to_names {key key' : String} {w w' : Workspace}
    (hw : w.graph? (.sheet key) = some .empty) (hw' : w'.graph? (.sheet key') = some .empty)
    {plan plan' : List (List Act × Instruction)} (hsame : plan.map Prod.snd = plan'.map Prod.snd)
    (hs : ∀ turn ∈ plan, ∀ a ∈ turn.1, a.Spares key)
    (hs' : ∀ turn ∈ plan', ∀ a ∈ turn.1, a.Spares key') :
    SameUpToNames ((fresh w).follow key plan) ((fresh w').follow key' plan') := by
  have htidy := (tidy_fresh w).follow key plan
  have htidy' := (tidy_fresh w').follow key' plan'
  have hR := oneToOne_named htidy.nodup htidy'.nodup htidy.isNumbered htidy'.isNumbered
  have halike : Alike (Named ((fresh w).follow key plan).2.names
      ((fresh w').follow key' plan').2.names) key key' (fresh w) (fresh w') :=
    ⟨rfl, .empty, .empty, hw, hw', .nil, .nil, rfl⟩
  obtain ⟨hresults, hlast⟩ := halike.follow hR hsame hs hs' fun _ _ h => h
  exact ⟨htidy.nodup, htidy'.nodup, hlast.length, hresults⟩

/-- Two layers are connected and the first is widened; then an edge is sought that is not there, and
a node that was removed. -/
def widenAndRemove : List Instruction :=
  [.addNode .linear, .addNode .linear, .connect 0 1, .patchText 0 "outFeatures" "32",
    .disconnect 1 0, .removeNode 0, .moveNode 0 .initial]

/-- A workspace whose count did not start here, with a second sheet. -/
def busyWorkspace : Workspace :=
  List.foldl Workspace.act (.start "other") [.edit "other" (.addNode .relu), .openSheet "main" ""]

/-- Before each instruction the second sheet is edited and the first is copied. -/
def besideOthers : List (List Act × Instruction) :=
  widenAndRemove.map fun i => ([.edit "other" (.addNode .relu), .copySheet "main" "copy"], i)

theorem a_busy_workspace_shifts_only_the_names :
    let alone := (fresh (.start "main")).follow "main" (widenAndRemove.map fun i => ([], i))
    let busy := (fresh busyWorkspace).follow "main" besideOthers
    SameUpToNames alone busy ∧ alone.2.names = [⟨"linear_1"⟩, ⟨"linear_2"⟩] ∧
      busy.2.names = [⟨"linear_3"⟩, ⟨"linear_5"⟩] ∧
      (busy.1.map Result.outcome).getLast? = some (some (.failed (.nodeMissing ⟨"linear_3"⟩))) := by
  refine ⟨a_script_draws_the_same_up_to_names rfl ?_ ?_ ?_ ?_, ?_, ?_, ?_⟩
  · decide +kernel
  · rfl
  · simp [widenAndRemove]
  · simp [besideOthers, widenAndRemove, Workspace.Act.Spares]
  · decide +kernel
  · decide +kernel
  · decide +kernel

end Drafting

end NetEditor
