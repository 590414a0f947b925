-- The laws of retrieval: what the holder of a current ticket gets once its worker has brought a
-- report, and when a worker is taken for lost.
import NetEditor.Proofs.Desk.Call
import NetEditor.Proofs.Desk.Delivery

namespace NetEditor.Training.Desk

variable {d : Desk} {t : Ticket} {place : Nat} {run steps : List DeskStep} {r : Report}

/-! ## Calls after the report has come -/

/-- Between calls the report lies in the inbox until a call takes it, and then nothing does. -/
theorem inbox_of_brought (ht : t ∈ (empty.after run).tickets[place]?) (hh : t.holder = .idle)
    (hb : Brought place r run) : t.worker ≠ .busy ∧
      (¬ Fetched place r run → t.inbox = some r) ∧ (Fetched place r run → t.inbox = none) := by
  cases story place run t ht with
  | unsent hb' => exact absurd hb (hb' r)
  | lying r' hb' hf hi hw =>
    obtain rfl := (hb' r).mp hb
    exact ⟨hw, fun _ => hi, fun h => absurd h (hf r)⟩
  | inHand _ _ _ _ _ _ hh' => simp [hh] at hh'
  | settled r' hb' hf hi hw =>
    obtain rfl := (hb' r).mp hb
    exact ⟨hw, fun h => absurd ((hf r).mpr rfl) h, fun _ => hi⟩

theorem countP_supersedes_eq_zero (hs : ∀ s ∈ steps, s.supersedes = false) :
    steps.countP DeskStep.supersedes = 0 := by
  rw [List.countP_eq_zero]
  intro s hmem
  simp [hs s hmem]

theorem outcome_lying (ht : t ∈ d.tickets[place]?) (hh : t.holder = .idle)
    (hc : t.isCurrent d.latest = true) (hw : t.worker ≠ .busy) (hi : t.inbox = some r)
    (call : Call) (hs : ∀ s ∈ steps, s.supersedes = false) :
    (d.outcome place call steps = none ∧ ¬ (call.toMake place).Sublist steps) ∨
      d.outcome place call steps = some (.completed r) := by
  have hzero := countP_supersedes_eq_zero hs
  have hanswer : Ticket.answer (t.isCurrent (d.latest + 0)) (.report r) = .completed r := by
    rw [Nat.add_zero, hc]
    rfl
  cases call with
  | poll =>
    have hg : ¬ t.HungUp := by simp [Ticket.HungUp, hi]
    have hfound : t.found = .report r := by simp [Ticket.found, hi]
    rcases outcome_poll ht hh hg steps with ⟨hnone, hrest⟩ | ⟨n, hn, hsome⟩
    · exact Or.inl ⟨hnone, fun hsub => hrest (List.singleton_sublist.mp hsub)⟩
    · obtain rfl : n = 0 := by omega
      rw [hfound, hanswer] at hsome
      exact Or.inr hsome
  | wait =>
    rcases outcome_wait ht hh hc hw hi steps with hnone | ⟨n, hn, hsome⟩
    · exact Or.inl hnone
    · obtain rfl : n = 0 := by omega
      rw [hanswer] at hsome
      exact Or.inr hsome

/-- A call that finds the inbox emptied never comes back with a report: while the worker is still
there a poll comes back with nothing, and once it has left it counts as lost. -/
theorem outcome_taken (ht : t ∈ d.tickets[place]?) (hh : t.holder = .idle)
    (hc : t.isCurrent d.latest = true) (hw : t.worker ≠ .busy) (hi : t.inbox = none)
    (call : Call) (hs : ∀ s ∈ steps, s.supersedes = false) (a : Answer)
    (ha : d.outcome place call steps = some a) :
    a = if call = .poll ∧ t.worker ≠ .gone then .pending else .completed lostReport := by
  have hzero := countP_supersedes_eq_zero hs
  cases call with
  | poll =>
    by_cases hgone : t.worker = .gone
    · rw [outcome_poll_hungUp ht hh ⟨hi, hgone⟩] at ha
      simpa [hgone, eq_comm] using ha
    · rcases outcome_poll ht hh (fun hg => hgone hg.2) steps with ⟨hnone, _⟩ | ⟨n, hn, hsome⟩
      · rw [hnone] at ha
        cases ha
      · obtain rfl : n = 0 := by omega
        rw [hsome, Nat.add_zero, hc, Ticket.found, hi] at ha
        simpa [hgone, Ticket.answer, eq_comm] using ha
  | wait => simpa using outcome_wait_empty ht hh hc hw hi steps a ha

/-! ## What a completed call tells -/

theorem answer_completed {current : Bool} {found : Taken}
    (h : Ticket.answer current found = .completed r) :
    found = .report r ∨ found = .hungUp ∧ r = lostReport := by
  cases found with
  | report r' =>
    cases current with
    | true => exact Or.inl (by simpa [Ticket.answer] using h)
    | false => cases h
  | nothing => cases current <;> cases h
  | hungUp =>
    cases h
    exact Or.inr ⟨rfl, rfl⟩

/-- A call that is completed hands out what its worker brought, or has found the worker gone and
nothing left to take. -/
theorem completed_cases {past : List DeskStep} {s : DeskStep}
    (ha : (empty.after past).answerAt place s = some (.completed r)) :
    Delivers place r (empty.after past) s ∨ r = lostReport ∧
      ∃ t ∈ (empty.after past).tickets[place]?, t.HungUp := by
  obtain ⟨t, ht⟩ := ticket_of_answerAt ha
  obtain ⟨hp, hturn⟩ := turn_of_answerAt ht ha
  generalize (t.turn (empty.after past).latest s).1 = t', hans : some (Answer.completed r) = a
    at hturn
  cases hturn with
  | pollLost hh hi hw | waitLost hh hi hw =>
    cases hans
    exact Or.inr ⟨rfl, t, ht, hi, hw⟩
  | @concluded _ call found hh =>
    cases hp
    rcases answer_completed (Option.some.inj hans).symm with rfl | ⟨rfl, rfl⟩
    · exact Or.inl ⟨rfl, ha, t, ht, call, hh⟩
    · -- A poll that finds the worker gone is over, so no call has that in its hands.
      cases story place past t ht with
      | unsent _ _ _ _ he => simp [Ticket.EmptyHanded, hh] at he
      | lying _ _ _ _ _ he => simp [Ticket.EmptyHanded, hh] at he
      | inHand _ _ _ _ _ _ hh' => simp [hh] at hh'
      | settled _ _ _ _ _ he => simp [Ticket.EmptyHanded, hh] at he
  | _ => cases hans

/-! ## The laws -/

/-- While a ticket stays current, a call on it hands out the report that its worker brought, until
a call has taken it. From then on a poll comes back with nothing as long as the worker is there,
and every other call takes the worker for lost. A worker is taken for lost only when it has left
and what it brought, if anything, has been taken. -/
theorem a_current_report_is_handed_out_until_a_call_takes_it (run : List DeskStep) (place : Nat) :
    (∀ (t : Ticket) (r : Report) (call : Call) (steps : List DeskStep),
      t ∈ (empty.after run).tickets[place]? → t.holder = .idle →
      t.isCurrent (empty.after run).latest = true → Brought place r run →
      (∀ s ∈ steps, s.supersedes = false) →
      let back := (empty.after run).outcome place call steps
      (¬ Fetched place r run → (∀ a, back = some a → a = .completed r) ∧
        ((call.toMake place).Sublist steps → back = some (.completed r))) ∧
      (Fetched place r run → ∀ a, back = some a →
        a = if call = .poll ∧ t.worker ≠ .gone then .pending else .completed lostReport)) ∧
    ∀ (s : DeskStep) (r : Report), (empty.after run).answerAt place s = some (.completed r) →
      Delivers place r (empty.after run) s ∧ Brought place r run ∨
        r = lostReport ∧ ∃ t ∈ (empty.after run).tickets[place]?, t.worker = .gone ∧
          ∀ r', Brought place r' run → Fetched place r' run := by
  refine ⟨?_, ?_⟩
  · intro t r call steps ht hh hc hb hs back
    obtain ⟨hw, hlying, htaken⟩ := inbox_of_brought ht hh hb
    refine ⟨?_, ?_⟩
    · intro hf
      rcases outcome_lying ht hh hc hw (hlying hf) call hs with ⟨hnone, hsub⟩ | hsome
      · exact ⟨fun a ha => by simp [back, hnone] at ha, fun h => absurd h hsub⟩
      · exact ⟨fun a ha => Option.some.inj (ha.symm.trans hsome), fun _ => hsome⟩
    · intro hf a ha
      exact outcome_taken ht hh hc hw (htaken hf) call hs a ha
  · intro s r ha
    rcases completed_cases ha with h | ⟨rfl, t, ht, hg⟩
    · exact Or.inl ⟨h, h.spends.1⟩
    · exact Or.inr ⟨rfl, t, ht, (hungUp_iff ht).mp hg⟩

theorem a_first_poll_hands_out_the_report :
    let run : List DeskStep := [.submit, .send 0 (Report.ofError "a"), .leave 0]
    Brought 0 (Report.ofError "a") run ∧ ¬ Fetched 0 (Report.ofError "a") run ∧
      (empty.after run).outcome 0 .poll [.conclude 0] = some (.completed (Report.ofError "a")) := by
  intro run
  have ht : (⟨1, some (Report.ofError "a"), .gone, .idle⟩ : Ticket) ∈
      (empty.after run).tickets[0]? := rfl
  have hb : Brought 0 (Report.ofError "a") run :=
    ⟨[.submit], .send 0 (Report.ofError "a"), [.leave 0], rfl, rfl, _, rfl, rfl⟩
  have hf : ¬ Fetched 0 (Report.ofError "a") run := by
    intro hf
    have := (inbox_of_brought ht rfl hb).2.2 hf
    cases this
  refine ⟨hb, hf, ?_⟩
  have h := (a_current_report_is_handed_out_until_a_call_takes_it run 0).1 _ _ .poll [.conclude 0]
    ht rfl rfl hb (by simp [DeskStep.supersedes])
  exact (h.1 hf).2 (List.Sublist.refl _)

/-- A report is not there for those who poll again: the first poll takes it away, and the second
reports a worker lost that had ended well. -/
theorem a_second_poll_of_a_current_ticket_loses_the_report :
    ¬ ∀ (run steps : List DeskStep) (place : Nat) (t : Ticket) (r : Report) (call : Call)
      (a : Answer), t ∈ (empty.after run).tickets[place]? → t.holder = .idle →
      t.isCurrent (empty.after run).latest = true → Brought place r run →
      (∀ s ∈ steps, s.supersedes = false) →
      (empty.after run).outcome place call steps = some a → a = .completed r := by
  intro h
  have hlost := h [.submit, .send 0 (Report.ofError "a"), .leave 0, .poll 0, .conclude 0] [] 0
    ⟨1, none, .gone, .idle⟩ (Report.ofError "a") .poll (.completed lostReport) rfl rfl rfl
    ⟨[.submit], .send 0 (Report.ofError "a"), [.leave 0, .poll 0, .conclude 0], rfl, rfl, _, rfl,
      rfl⟩ (by simp) rfl
  have hmessage : lostReport = Report.ofError "a" := Answer.completed.inj hlost
  simp [lostReport, Report.ofError] at hmessage

end NetEditor.Training.Desk
