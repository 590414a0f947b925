-- The law of revisions. The revision of a graph counts the turns of its history that took effect,
-- so of the graphs that one history goes through, two of one revision are the same.
import NetEditor.Proofs.Graph.AllOrNothing
import NetEditor.Proofs.Graph.History

namespace NetEditor.Graph

variable {start g : Graph} {first serial : Nat} {turns : List Turn}

/-! ## Turns that take effect -/

namespace Turn

variable {t : Turn}

/-- The turn asks for a connection that is there already. -/
def repeats (t : Turn) : Bool :=
  t.before.edges.any fun edge => t.command = .connect edge.source edge.target

/-- The turn is a success, and there was something left to do. -/
def tookEffect (t : Turn) : Bool := t.outcome.isSuccess && !t.repeats

theorem repeats_eq_false_iff : t.repeats = false ↔
    ∀ edge ∈ t.before.edges, t.command ≠ .connect edge.source edge.target := by
  simp [repeats]

theorem after_of_repeats (hr : Ran t.before serial t.command t.outcome t.after)
    (h : t.repeats = true) : t.after = t.before := by
  obtain ⟨g, c, outcome, next⟩ := t
  simp only [repeats, List.any_eq_true, decide_eq_true_eq] at hr h ⊢
  obtain ⟨edge, he, rfl⟩ := h
  cases hr with
  | connected _ _ hnew _ => exact absurd ⟨rfl, rfl⟩ (edgeBetween?_eq_none_iff.mp hnew edge he)
  | applied hc => simp [Command.setting?] at hc
  | _ => rfl

theorem revision_of_tookEffect (hr : Ran t.before serial t.command t.outcome t.after)
    (h : t.tookEffect = true) : t.after.revision = t.before.revision + 1 := by
  simp only [tookEffect, Bool.and_eq_true, Bool.not_eq_eq_eq_not, Bool.not_true] at h
  exact revision_of_success hr h.1 (repeats_eq_false_iff.mp h.2)

theorem after_of_not_tookEffect (hr : Ran t.before serial t.command t.outcome t.after)
    (h : t.tookEffect = false) : t.after = t.before := by
  simp only [tookEffect, Bool.and_eq_false_iff, Bool.not_eq_eq_eq_not, Bool.not_false] at h
  rcases h with hfailed | hrepeats
  · exact graph_of_not_success hr hfailed
  · exact after_of_repeats hr hrepeats

end Turn

/-! ## Histories -/

namespace History

theorem revision_eq (h : History start first turns g serial) :
    g.revision = start.revision + turns.countP Turn.tookEffect := by
  induction h with
  | nil => rfl
  | elsewhere _ _ ih => exact ih
  | @snoc turns g serial c _ ih =>
    rw [List.countP_append, List.countP_singleton]
    cases ht : (g.turn serial c).tookEffect with
    | true =>
      rw [Turn.revision_of_tookEffect (ran_turn g serial c) ht]
      show g.revision + 1 = _
      rw [ih]
      rfl
    | false =>
      rw [Turn.after_of_not_tookEffect (ran_turn g serial c) ht]
      exact ih

theorem eq_of_no_effect (h : History start first turns g serial)
    (hno : ∀ t ∈ turns, t.tookEffect = false) : g = start := by
  induction h with
  | nil => rfl
  | elsewhere _ _ ih => exact ih hno
  | @snoc turns g serial c _ ih =>
    rw [List.forall_mem_append, List.forall_mem_singleton] at hno
    exact (Turn.after_of_not_tookEffect (ran_turn g serial c) hno.2).trans (ih hno.1)

theorem split (h : History start first turns g serial) {past more : List Turn}
    (hturns : turns = past ++ more) :
    ∃ between now, History start first past between now ∧ History between now more g serial := by
  induction h generalizing more with
  | nil =>
    obtain ⟨rfl, rfl⟩ := List.append_eq_nil_iff.mp hturns.symm
    exact ⟨start, first, .nil, .nil⟩
  | elsewhere _ hl ih =>
    obtain ⟨between, now, hpast, hmore⟩ := ih hturns
    exact ⟨between, now, hpast, hmore.elsewhere hl⟩
  | @snoc turns g serial c hg ih =>
    rcases List.eq_nil_or_concat' more with rfl | ⟨front, last, rfl⟩
    · rw [List.append_nil] at hturns
      exact ⟨_, _, hturns ▸ hg.snoc c, .nil⟩
    · rw [← List.append_assoc] at hturns
      obtain ⟨hfront, hlast⟩ := List.append_inj' hturns rfl
      obtain ⟨between, now, hpast, hmore⟩ := ih hfront
      obtain rfl := List.singleton_inj.mp hlast
      exact ⟨between, now, hpast, hmore.snoc c⟩

theorem eq_last (h : History start first turns g serial) :
    turns.getLast?.elim start Turn.after = g := by
  induction h with
  | nil => rfl
  | elsewhere _ _ ih => exact ih
  | snoc c _ _ => simp

end History

/-! ## The law -/

/-- The graph as it is after so many turns. -/
def snapshot (start : Graph) (turns : List Turn) (moment : Nat) : Graph :=
  (turns.take moment).getLast?.elim start Turn.after

/-- A later graph of a history comes out of an earlier one by the turns between the two. -/
theorem History.snapshots (h : History start first turns g serial) {i j : Nat} (hij : i ≤ j) :
    ∃ now later, History start first (turns.take i) (snapshot start turns i) now ∧
      History (snapshot start turns i) now ((turns.take j).drop i) (snapshot start turns j)
        later := by
  obtain ⟨late, later, hlate, _⟩ := h.split (List.take_append_drop j turns).symm
  obtain ⟨early, now, hearly, hbetween⟩ :=
    hlate.split (List.take_append_drop i (turns.take j)).symm
  rw [List.take_take, Nat.min_eq_left hij] at hearly
  have hi : snapshot start turns i = early := hearly.eq_last
  have hj : snapshot start turns j = late := hlate.eq_last
  rw [hi, hj]
  exact ⟨now, later, hearly, hbetween⟩

/-- What the revisions of the graphs promise that a list of turns goes through. -/
structure RevisionsTell (turns : List Turn) : Prop where
  /-- The revision is the number of turns so far that took effect. -/
  counted : ∀ i, (snapshot .empty turns i).revision = (turns.take i).countP Turn.tookEffect
  rising : ∀ i j, i ≤ j → (snapshot .empty turns i).revision ≤ (snapshot .empty turns j).revision
  /-- Between two moments of one revision no turn took effect. -/
  nothing_between : ∀ i j, i ≤ j →
    (snapshot .empty turns i).revision = (snapshot .empty turns j).revision →
    ∀ t ∈ (turns.take j).drop i, t.tookEffect = false
  identify : ∀ i j, (snapshot .empty turns i).revision = (snapshot .empty turns j).revision →
    (snapshot .empty turns i).nodes = (snapshot .empty turns j).nodes ∧
      (snapshot .empty turns i).edges = (snapshot .empty turns j).edges

theorem no_effect_of_revision_eq (h : History start first turns g serial)
    (hrev : start.revision = g.revision) : ∀ t ∈ turns, t.tookEffect = false := by
  have hcount := h.revision_eq
  have hzero : turns.countP Turn.tookEffect = 0 := by omega
  intro t ht
  simpa using List.countP_eq_zero.mp hzero t ht

/-- From the empty graph on, the revision counts the commands that took effect, never falls, and
tells the graph: the nodes and the edges at two moments of one revision are the same. -/
theorem a_revision_identifies_the_graph (first : Nat) (turns : List Turn) (g : Graph) (serial : Nat)
    (h : History .empty first turns g serial) :
    RevisionsTell turns ∧ snapshot .empty turns turns.length = g := by
  have hsame : ∀ i j, i ≤ j →
      (snapshot .empty turns i).revision = (snapshot .empty turns j).revision →
      snapshot .empty turns i = snapshot .empty turns j := by
    intro i j hij hrev
    obtain ⟨_, _, _, hbetween⟩ := h.snapshots hij
    exact (hbetween.eq_of_no_effect (no_effect_of_revision_eq hbetween hrev)).symm
  refine ⟨⟨?_, ?_, ?_, ?_⟩, ?_⟩
  · intro i
    obtain ⟨_, _, hpast, _⟩ := h.snapshots (Nat.le_refl i)
    simpa [empty] using hpast.revision_eq
  · intro i j hij
    obtain ⟨_, _, _, hbetween⟩ := h.snapshots hij
    rw [hbetween.revision_eq]
    exact Nat.le_add_right _ _
  · intro i j hij hrev
    obtain ⟨_, _, _, hbetween⟩ := h.snapshots hij
    exact no_effect_of_revision_eq hbetween hrev
  · intro i j hrev
    rcases Nat.le_total i j with hij | hji
    · rw [hsame i j hij hrev]
      exact ⟨rfl, rfl⟩
    · rw [hsame j i hji hrev.symm]
      exact ⟨rfl, rfl⟩
  · rw [snapshot, List.take_length]
    exact h.eq_last

/-- Two layers are connected twice, the first gets a text that is no number and then the value that
it has, a node and an edge are named that are not there, and the second layer is removed. -/
def someInVain : List Command :=
  [.addNode .linear, .addNode .linear, .connect ⟨"linear_1"⟩ ⟨"linear_2"⟩,
    .connect ⟨"linear_1"⟩ ⟨"linear_2"⟩, .patchText ⟨"linear_1"⟩ "outFeatures" "many",
    .patchText ⟨"linear_1"⟩ "outFeatures" "16", .moveNode ⟨"relu_2"⟩ .initial,
    .disconnect ⟨"linear_2->linear_1"⟩, .removeNode ⟨"linear_2"⟩]

theorem five_of_nine_commands_are_counted :
    let turns := play .empty 0 someInVain
    History .empty 0 turns (run .empty 0 someInVain).1 (run .empty 0 someInVain).2 ∧
      RevisionsTell turns ∧
      turns.map Turn.tookEffect = [true, true, true, false, false, true, false, false, true] ∧
      (List.range 10).map (fun i => (snapshot .empty turns i).revision) =
        [0, 1, 2, 3, 3, 3, 4, 4, 4, 5] := by
  intro turns
  have h := (History.nil : History .empty 0 [] .empty 0).play someInVain
  exact ⟨h, (a_revision_identifies_the_graph 0 turns _ _ h).1, by decide +kernel,
    by decide +kernel⟩

end NetEditor.Graph
