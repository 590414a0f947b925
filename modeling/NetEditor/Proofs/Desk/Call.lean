-- What a call comes back with when anything may happen between its steps. A call that has taken
-- something from the inbox answers at its last look at the latest number, and by then the number
-- may have risen.
import NetEditor.Proofs.Desk.Story

namespace NetEditor.Training

/-- The steps that a call has still to make once it has begun. -/
def Call.toMake (place : Nat) : Call → List DeskStep
  | poll => [.conclude place]
  | wait => [.take place, .conclude place]

/-- What a poll takes while the worker is not gone. -/
def Ticket.found (t : Ticket) : Taken :=
  match t.inbox with
  | some r => .report r
  | none => .nothing

theorem Ticket.isCurrent_congr {t t' : Ticket} (h : t'.number = t.number) (latest : Nat) :
    t'.isCurrent latest = t.isCurrent latest := by
  simp [isCurrent, h]

namespace Desk

/-- What a call that begins now comes back with, if the steps that follow bring it to its end. -/
def outcome (d : Desk) (place : Nat) (call : Call) (steps : List DeskStep) : Option Answer :=
  (d.answers place (call.begin place :: steps)).head?

variable {d : Desk} {t : Ticket} {place : Nat}

/-! ## Steps that leave a call as it is -/

/-- The ticket at a place after a step that gives its holder no answer. -/
def Stays (d : Desk) (place : Nat) (s : DeskStep) (P : Ticket → Prop) : Prop :=
  d.answerAt place s = none ∧ ∃ t ∈ (d.step s).1.tickets[place]?, P t

theorem stays_of_turn {P : Ticket → Prop} (ht : t ∈ d.tickets[place]?) (s : DeskStep) (hP : P t)
    (hturn : ∀ t' a, s.place? = some place → t.Turn d.latest s t' a → a = none ∧ P t') :
    d.Stays place s P := by
  unfold Stays
  rw [answerAt_eq ht]
  refine ⟨?_, _, step_ticket ht s, ?_⟩
  · split
    · exact (hturn _ _ ‹_› (t.turn_cases d.latest s)).1
    · rfl
  · split
    · exact (hturn _ _ ‹_› (t.turn_cases d.latest s)).2
    · exact hP

/-- A call with something in its hands keeps it until it concludes. -/
theorem stays_taken {call : Call} {found : Taken} (ht : t ∈ d.tickets[place]?)
    (hh : t.holder = .taken call found) {s : DeskStep} (hs : s ≠ .conclude place) :
    d.Stays place s fun t' => t'.holder = .taken call found ∧ t'.number = t.number := by
  refine stays_of_turn ht s ⟨hh, rfl⟩ ?_
  intro t' a hp hturn
  cases hturn with
  | still | notSent | sent | left => exact ⟨rfl, hh, rfl⟩
  | concluded =>
    cases hp
    exact absurd rfl hs
  | found hh' | foundNothing hh' | pollLost hh' | entered hh' | sentAway hh' | received hh'
  | waitLost hh' | dropped hh' => simp [hh] at hh'

theorem stays_waiting (ht : t ∈ d.tickets[place]?) (hh : t.holder = .waiting)
    (hw : t.worker ≠ .busy) {s : DeskStep} (hs : s ≠ .take place) :
    d.Stays place s fun t' => t'.holder = .waiting ∧ t'.worker ≠ .busy ∧ t'.inbox = t.inbox ∧
      t'.number = t.number := by
  refine stays_of_turn ht s ⟨hh, hw, rfl, rfl⟩ ?_
  intro t' a hp hturn
  cases hturn with
  | still | notSent => exact ⟨rfl, hh, hw, rfl, rfl⟩
  | left => exact ⟨rfl, hh, by simp, rfl, rfl⟩
  | sent r hw' => exact absurd hw' hw
  | received | waitLost =>
    cases hp
    exact absurd rfl hs
  | found hh' | foundNothing hh' | pollLost hh' | entered hh' | sentAway hh' | concluded hh'
  | dropped hh' => simp [hh] at hh'

theorem head?_answers_of_stays {P : Ticket → Prop} {s : DeskStep} (h : d.Stays place s P)
    (rest : List DeskStep) :
    (d.answers place (s :: rest)).head? = ((d.step s).1.answers place rest).head? := by
  simp [answers, h.1]

/-! ## The end of a call -/

/-- The first answer that the steps give is for what a call has found, and judges the ticket by a
number that is the latest after some of them. -/
def AnswersFor (d : Desk) (place : Nat) (t : Ticket) (found : Taken) (steps : List DeskStep) :
    Prop :=
  ∃ n ≤ steps.countP DeskStep.supersedes, (d.answers place steps).head? =
    some (Ticket.answer (t.isCurrent (d.latest + n)) found)

theorem AnswersFor.cons {P : Ticket → Prop} {t' : Ticket} {found : Taken} {s : DeskStep}
    {rest : List DeskStep} (h : (d.step s).1.AnswersFor place t' found rest)
    (hstay : d.Stays place s P) (hnum : t'.number = t.number) :
    d.AnswersFor place t found (s :: rest) := by
  obtain ⟨n, hn, hsome⟩ := h
  refine ⟨(if s.supersedes then 1 else 0) + n, ?_, ?_⟩
  · rw [List.countP_cons]
    omega
  · rw [head?_answers_of_stays hstay, hsome, step_latest, Nat.add_assoc,
      Ticket.isCurrent_congr hnum]

/-- The call answers what it has taken, and judges the ticket by the number that is the latest at
its end. -/
theorem answersFor_taken {call : Call} {found : Taken} (ht : t ∈ d.tickets[place]?)
    (hh : t.holder = .taken call found) (steps : List DeskStep) :
    ((d.answers place steps).head? = none ∧ .conclude place ∉ steps) ∨
      d.AnswersFor place t found steps := by
  induction steps generalizing d t with
  | nil => exact Or.inl ⟨rfl, by simp⟩
  | cons s rest ih =>
    by_cases hs : s = .conclude place
    · subst hs
      refine Or.inr ⟨0, Nat.zero_le _, ?_⟩
      simp [answers, answerAt_eq ht, DeskStep.place?, Ticket.turn, Ticket.conclude, hh]
    · have hstay := stays_taken ht hh hs
      obtain ⟨t', ht', hh', hnum⟩ := hstay.2
      rcases ih ht' hh' with ⟨hnone, hrest⟩ | h
      · refine Or.inl ⟨?_, by simp [Ne.symm hs, hrest]⟩
        rw [head?_answers_of_stays hstay, hnone]
      · exact Or.inr (h.cons hstay hnum)

theorem answersFor_waiting {r : Report} (ht : t ∈ d.tickets[place]?) (hh : t.holder = .waiting)
    (hw : t.worker ≠ .busy) (hi : t.inbox = some r) (steps : List DeskStep) :
    ((d.answers place steps).head? = none ∧
        ¬ [DeskStep.take place, DeskStep.conclude place].Sublist steps) ∨
      d.AnswersFor place t (.report r) steps := by
  induction steps generalizing d t with
  | nil => exact Or.inl ⟨rfl, by simp⟩
  | cons s rest ih =>
    by_cases hs : s = .take place
    · subst hs
      have hstay : d.Stays place (.take place) fun t' =>
          t'.holder = .taken .wait (.report r) ∧ t'.number = t.number := by
        refine ⟨?_, _, step_ticket ht _, ?_⟩
        · simp [answerAt_eq ht, Ticket.turn, Ticket.takeWaiting, Ticket.take, hh, hi]
        · simp [DeskStep.place?, Ticket.turn, Ticket.takeWaiting, Ticket.take, hh, hi]
      obtain ⟨t', ht', hh', hnum⟩ := hstay.2
      rcases answersFor_taken ht' hh' rest with ⟨hnone, hrest⟩ | h
      · refine Or.inl ⟨by rw [head?_answers_of_stays hstay, hnone], fun hsub => hrest ?_⟩
        rcases List.sublist_cons_iff.mp hsub with hsub | ⟨_, heq, hsub⟩
        · exact hsub.subset (by simp)
        · cases heq
          exact hsub.subset (by simp)
      · exact Or.inr (h.cons hstay hnum)
    · have hstay := stays_waiting ht hh hw hs
      obtain ⟨t', ht', hh', hw', hi', hnum⟩ := hstay.2
      rcases ih ht' hh' hw' (hi'.trans hi) with ⟨hnone, hrest⟩ | h
      · refine Or.inl ⟨by rw [head?_answers_of_stays hstay, hnone], fun hsub => hrest ?_⟩
        rcases List.sublist_cons_iff.mp hsub with hsub | ⟨_, heq, _⟩
        · exact hsub
        · cases heq
          exact absurd rfl hs
      · exact Or.inr (h.cons hstay hnum)

/-- A wait that has nothing to take any more ends only when the worker has left. -/
theorem head?_answers_waiting_empty (ht : t ∈ d.tickets[place]?) (hh : t.holder = .waiting)
    (hw : t.worker ≠ .busy) (hi : t.inbox = none) (steps : List DeskStep) (a : Answer)
    (ha : (d.answers place steps).head? = some a) : a = .completed lostReport := by
  induction steps generalizing d t with
  | nil => simp [answers] at ha
  | cons s rest ih =>
    by_cases hs : s = .take place
    · subst hs
      by_cases hgone : t.worker = .gone
      · simp [answers, answerAt_eq ht, DeskStep.place?, Ticket.turn, Ticket.takeWaiting,
          Ticket.take, hh, hi, hgone] at ha
        exact ha.symm
      · have hstay : d.Stays place (.take place) fun t' => t' = t := by
          refine ⟨?_, _, step_ticket ht _, ?_⟩
          · simp [answerAt_eq ht, Ticket.turn, Ticket.takeWaiting, Ticket.take, hh, hi, hgone]
          · simp [DeskStep.place?, Ticket.turn, Ticket.takeWaiting, Ticket.take, hh, hi, hgone]
        obtain ⟨t', ht', rfl⟩ := hstay.2
        rw [head?_answers_of_stays hstay] at ha
        exact ih ht' hh hw hi ha
    · have hstay := stays_waiting ht hh hw hs
      obtain ⟨t', ht', hh', hw', hi', _⟩ := hstay.2
      rw [head?_answers_of_stays hstay] at ha
      exact ih ht' hh' hw' (hi'.trans hi) ha

/-! ## Polls and waits -/

theorem outcome_of_stays {P : Ticket → Prop} {call : Call}
    (hstay : d.Stays place (call.begin place) P) (steps : List DeskStep) :
    d.outcome place call steps = ((d.step (call.begin place)).1.answers place steps).head? :=
  head?_answers_of_stays hstay steps

theorem AnswersFor.outcome {P : Ticket → Prop} {call : Call} {t' : Ticket} {found : Taken}
    {steps : List DeskStep} (h : (d.step (call.begin place)).1.AnswersFor place t' found steps)
    (hstay : d.Stays place (call.begin place) P) (hnum : t'.number = t.number) :
    ∃ n ≤ steps.countP DeskStep.supersedes, d.outcome place call steps =
      some (Ticket.answer (t.isCurrent (d.latest + n)) found) := by
  obtain ⟨n, hn, hsome⟩ := h.cons hstay hnum
  refine ⟨n, ?_, hsome⟩
  cases call <;> simpa [Call.begin, DeskStep.supersedes] using hn

theorem outcome_poll_hungUp (ht : t ∈ d.tickets[place]?) (hh : t.holder = .idle) (hg : t.HungUp)
    (steps : List DeskStep) : d.outcome place .poll steps = some (.completed lostReport) := by
  obtain ⟨hi, hw⟩ := hg
  simp [outcome, Call.begin, answers, answerAt_eq ht, DeskStep.place?, Ticket.turn, Ticket.poll,
    Ticket.take, hh, hi, hw]

/-- A poll that does not find the worker gone answers what it finds, by the number at its end. -/
theorem outcome_poll (ht : t ∈ d.tickets[place]?) (hh : t.holder = .idle) (hg : ¬ t.HungUp)
    (steps : List DeskStep) :
    (d.outcome place .poll steps = none ∧ .conclude place ∉ steps) ∨
      ∃ n ≤ steps.countP DeskStep.supersedes, d.outcome place .poll steps =
        some (Ticket.answer (t.isCurrent (d.latest + n)) t.found) := by
  have hstay : d.Stays place (Call.poll.begin place) fun t' =>
      t'.holder = .taken .poll t.found ∧ t'.number = t.number := by
    unfold Stays Call.begin
    rw [answerAt_eq ht, step_ticket ht]
    cases hi : t.inbox with
    | some r => simp [DeskStep.place?, Ticket.turn, Ticket.poll, Ticket.take, Ticket.found, hh, hi]
    | none =>
      have hw : t.worker ≠ .gone := fun hw => hg ⟨hi, hw⟩
      simp [DeskStep.place?, Ticket.turn, Ticket.poll, Ticket.take, Ticket.found, hh, hi, hw]
  obtain ⟨t', ht', hh', hnum⟩ := hstay.2
  rcases answersFor_taken ht' hh' steps with ⟨hnone, hrest⟩ | h
  · exact Or.inl ⟨(outcome_of_stays hstay steps).trans hnone, hrest⟩
  · exact Or.inr (h.outcome hstay hnum)

theorem outcome_wait_stale (ht : t ∈ d.tickets[place]?) (hh : t.holder = .idle)
    (hc : t.isCurrent d.latest = false) (steps : List DeskStep) :
    d.outcome place .wait steps = some .superseded := by
  simp [outcome, Call.begin, answers, answerAt_eq ht, DeskStep.place?, Ticket.turn, Ticket.enter,
    hh, hc]

theorem stays_enter (ht : t ∈ d.tickets[place]?) (hh : t.holder = .idle)
    (hc : t.isCurrent d.latest = true) :
    d.Stays place (Call.wait.begin place) fun t' => t'.holder = .waiting ∧
      t'.worker = t.worker ∧ t'.inbox = t.inbox ∧ t'.number = t.number := by
  unfold Stays Call.begin
  rw [answerAt_eq ht, step_ticket ht]
  simp [DeskStep.place?, Ticket.turn, Ticket.enter, hh, hc]

/-- A wait for a current ticket whose report has come answers it, by the number at its end. -/
theorem outcome_wait {r : Report} (ht : t ∈ d.tickets[place]?) (hh : t.holder = .idle)
    (hc : t.isCurrent d.latest = true) (hw : t.worker ≠ .busy) (hi : t.inbox = some r)
    (steps : List DeskStep) :
    (d.outcome place .wait steps = none ∧
        ¬ [DeskStep.take place, DeskStep.conclude place].Sublist steps) ∨
      ∃ n ≤ steps.countP DeskStep.supersedes, d.outcome place .wait steps =
        some (Ticket.answer (t.isCurrent (d.latest + n)) (.report r)) := by
  have hstay := stays_enter ht hh hc
  obtain ⟨t', ht', hh', hw', hi', hnum⟩ := hstay.2
  rcases answersFor_waiting ht' hh' (hw' ▸ hw) (hi'.trans hi) steps with ⟨hnone, hrest⟩ | h
  · exact Or.inl ⟨(outcome_of_stays hstay steps).trans hnone, hrest⟩
  · exact Or.inr (h.outcome hstay hnum)

/-- A wait for a current ticket whose report is gone has nothing to hand out. -/
theorem outcome_wait_empty (ht : t ∈ d.tickets[place]?) (hh : t.holder = .idle)
    (hc : t.isCurrent d.latest = true) (hw : t.worker ≠ .busy) (hi : t.inbox = none)
    (steps : List DeskStep) (a : Answer) (ha : d.outcome place .wait steps = some a) :
    a = .completed lostReport := by
  have hstay := stays_enter ht hh hc
  obtain ⟨t', ht', hh', hw', hi', _⟩ := hstay.2
  rw [outcome_of_stays hstay] at ha
  exact head?_answers_waiting_empty ht' hh' (hw' ▸ hw) (hi'.trans hi) steps a ha

end Desk

end NetEditor.Training
