-- The laws of delivery: which report a ticket's holder gets, and in which order the reports of
-- different tickets are handed out, whatever steps of others come between.
import NetEditor.Proofs.Desk.Story

namespace NetEditor.Training.Desk

variable {d : Desk} {t : Ticket} {place : Nat} {past : List DeskStep} {s : DeskStep}

/-- A call ends by handing out the report that it has taken from the inbox. -/
def Delivers (place : Nat) (r : Report) (d : Desk) (s : DeskStep) : Prop :=
  s = .conclude place ∧ d.answerAt place s = some (.completed r) ∧
    ∃ t ∈ d.tickets[place]?, ∃ call, t.holder = .taken call (.report r)

/-! ## One delivery -/

theorem ticket_of_answerAt {a : Answer} (h : d.answerAt place s = some a) :
    ∃ t, t ∈ d.tickets[place]? := by
  unfold answerAt at h
  split at h
  · rename_i hp
    rw [step_eq_change hp] at h
    unfold change at h
    split at h
    · cases h
    · exact ⟨_, ‹_›⟩
  · cases h

theorem turn_of_answerAt {a : Answer} (ht : t ∈ d.tickets[place]?)
    (h : d.answerAt place s = some a) :
    s.place? = some place ∧ t.Turn d.latest s (t.turn d.latest s).1 (some a) := by
  rw [answerAt_eq ht] at h
  split at h
  · exact ⟨‹_›, h ▸ t.turn_cases d.latest s⟩
  · cases h

/-- A worker is not taken for lost before its report was answered with something. -/
theorem not_hungUp_of_brought {r : Report} {future : List DeskStep}
    (ht : t ∈ (empty.after past).tickets[place]?) (hempty : t.EmptyHanded)
    (hr : Brought place r (past ++ future))
    (hpast : ∀ b ∈ empty.answers place past, b = .pending) : ¬ t.HungUp := by
  rintro ⟨hi, hw⟩
  rw [brought_append_iff ht (by simp [hw])] at hr
  cases story place past t ht with
  | unsent hb => exact hb r hr
  | lying _ _ _ hi' => simp [hi] at hi'
  | inHand _ _ _ _ _ _ hh => simp [Ticket.EmptyHanded, hh] at hempty
  | settled _ _ _ _ _ _ ha =>
    obtain ⟨a, hmem, hne⟩ := ha
    exact hne (hpast a hmem)

/-- The first answer that is more than that there is nothing yet is given at a look at the latest
number, and is the report if the ticket is current then. -/
theorem first_answer {r : Report} {future : List DeskStep} {a : Answer}
    (hr : Brought place r (past ++ s :: future))
    (hpast : ∀ b ∈ empty.answers place past, b = .pending)
    (ha : (empty.after past).answerAt place s = some a) (hne : a ≠ .pending) :
    (s = .conclude place ∨ s = .enter place) ∧
      a = if (empty.after past).isCurrent place then .completed r else .superseded := by
  obtain ⟨t, ht⟩ := ticket_of_answerAt ha
  obtain ⟨hp, hturn⟩ := turn_of_answerAt ht ha
  have hcur : (empty.after past).isCurrent place = t.isCurrent (empty.after past).latest := by
    simp [isCurrent, Option.mem_def.mp ht]
  rw [hcur]
  generalize (t.turn (empty.after past).latest s).1 = t' at hturn
  cases hturn with
  | pollLost hh hi hw =>
    exact absurd ⟨hi, hw⟩ (not_hungUp_of_brought ht (.inl hh) hr hpast)
  | waitLost hh hi hw =>
    exact absurd ⟨hi, hw⟩ (not_hungUp_of_brought ht (.inr (.inl hh)) hr hpast)
  | sentAway hh hc =>
    cases hp
    simp [hc]
  | @concluded _ call found hh =>
    cases hp
    refine ⟨.inl rfl, ?_⟩
    -- A call that concludes with nothing in its hands says more only when the ticket is stale.
    have hnothing (he : t.EmptyHanded) :
        Ticket.answer (t.isCurrent (empty.after past).latest) found =
          if t.isCurrent (empty.after past).latest then .completed r else .superseded := by
      obtain ⟨rfl, rfl⟩ : call = .poll ∧ found = .nothing := by
        simpa [Ticket.EmptyHanded, hh] using he
      cases hc : t.isCurrent (empty.after past).latest with
      | true => simp [Ticket.answer, hc] at hne
      | false => rfl
    cases story place past t ht with
    | unsent _ _ _ _ he => exact hnothing he
    | lying _ _ _ _ _ he => exact hnothing he
    | settled _ _ _ _ _ he => exact hnothing he
    | inHand r' call' hb _ _ _ hh' =>
      obtain ⟨rfl, rfl⟩ : call = call' ∧ found = .report r' := by simpa [hh] using hh'
      obtain rfl : r' = r := brought_unique (((hb r').mpr rfl).append _) hr
      rfl

/-! ## No second delivery -/

/-- The report has come and has been taken, and no call has it in its hands any more. -/
def Spent (t : Ticket) : Prop := t.inbox = none ∧ t.worker ≠ .busy ∧ t.EmptyHanded

theorem turn_spent (t : Ticket) (latest : Nat) (s : DeskStep) (h : Spent t) :
    Spent (t.turn latest s).1 := by
  obtain ⟨hi, hw, he⟩ := h
  have hturn := t.turn_cases latest s
  generalize (t.turn latest s).1 = t', (t.turn latest s).2 = a at hturn ⊢
  cases hturn with
  | still | notSent | pollLost => exact ⟨hi, hw, he⟩
  | sent r hw' => exact absurd hw' hw
  | left => exact ⟨hi, by simp, he⟩
  | found hh hi' | received hh hi' => simp [hi] at hi'
  | @concluded _ call _ _ =>
    cases call
    · exact ⟨hi, hw, .inl rfl⟩
    · exact ⟨hi, hw, .inr (.inr (.inr rfl))⟩
  | foundNothing | entered | sentAway | waitLost | dropped =>
    exact ⟨hi, hw, by simp [Ticket.EmptyHanded]⟩

/-- What is delivered was brought by the worker of that very ticket, the ticket has the latest
number then, and is spent afterwards. -/
theorem Delivers.spends {r : Report} (h : Delivers place r (empty.after past) s) :
    Brought place r past ∧ ∃ t ∈ (empty.after past).tickets[place]?,
      t.number = (empty.after past).latest ∧
        ∃ t' ∈ (empty.after (past ++ [s])).tickets[place]?, Spent t' ∧ t'.number = t.number := by
  obtain ⟨rfl, ha, t, ht, call, hh⟩ := h
  have hp : (DeskStep.conclude place).place? = some place := rfl
  have hnext := step_ticket ht (.conclude place)
  have hturn : (t.turn (empty.after past).latest (.conclude place)).1 = t.leaveCall call := by
    simp [Ticket.turn, Ticket.conclude, hh]
  rw [answerAt_eq ht, if_pos hp] at ha
  have hcur : t.isCurrent (empty.after past).latest = true := by
    by_contra hc
    simp [Ticket.turn, Ticket.conclude, hh, Ticket.answer, hc] at ha
  cases story place past t ht with
  | inHand r' call' hb _ hi hw hh' =>
    obtain ⟨rfl, rfl⟩ : call = call' ∧ r = r' := by simpa [hh] using hh'
    refine ⟨(hb r).mpr rfl, t, ht, (of_decide_eq_true hcur).symm, t.leaveCall call, ?_, ?_⟩
    · rw [after_append, after_cons, after_nil, hnext, if_pos hp, hturn]
      rfl
    · cases call
      · exact ⟨⟨hi, hw, .inl rfl⟩, rfl⟩
      · exact ⟨⟨hi, hw, .inr (.inr (.inr rfl))⟩, rfl⟩
  | unsent _ _ _ _ he => simp [Ticket.EmptyHanded, hh] at he
  | lying _ _ _ _ _ he => simp [Ticket.EmptyHanded, hh] at he
  | settled _ _ _ _ _ he => simp [Ticket.EmptyHanded, hh] at he

theorem not_delivers_of_spent {r : Report} (ht : t ∈ d.tickets[place]?) (h : Spent t) :
    ¬ Delivers place r d s := by
  rintro ⟨_, _, u, hu, call, hh⟩
  obtain rfl : t = u := Option.some.inj (ht.symm.trans hu)
  simpa [Ticket.EmptyHanded, hh] using h.2.2

theorem delivered_number_lt {between : List DeskStep} {s' : DeskStep} {p q : Nat} {r r' : Report}
    (h : Delivers p r (empty.after past) s)
    (h' : Delivers q r' (empty.after (past ++ s :: between)) s') :
    ∃ t ∈ (empty.after (past ++ s :: between)).tickets[p]?,
      ∃ u ∈ (empty.after (past ++ s :: between)).tickets[q]?, t.number < u.number := by
  have hsplit : past ++ s :: between = (past ++ [s]) ++ between := by simp
  obtain ⟨_, t, _, hnum, t1, ht1, hspent, hnum1⟩ := h.spends
  obtain ⟨_, u, hu, hnumu, _⟩ := h'.spends
  obtain ⟨t2, ht2, hspent2, hnum2⟩ := ticket_after (P := fun x => Spent x ∧ x.number = t1.number)
    (fun x latest s hx => ⟨turn_spent x latest s hx.1, (turn_number x latest s).trans hx.2⟩)
    ht1 ⟨hspent, rfl⟩ between
  rw [← after_append, ← hsplit] at ht2
  have hlatest : (empty.after past).latest ≤ (empty.after (past ++ s :: between)).latest := by
    rw [after_append, latest_after (empty.after past)]
    omega
  have hne : t2.number ≠ u.number := by
    intro heq
    obtain rfl := (numbered_empty.after _).place_unique ht2 hu heq
    exact not_delivers_of_spent ht2 hspent2 h'
  exact ⟨t2, ht2, u, hu, by omega⟩

/-! ## The laws -/

structure Orderly (run : List DeskStep) : Prop where
  one_current : ∀ (p q : Nat) (t u : Ticket),
    t ∈ (empty.after run).tickets[p]? → t.isCurrent (empty.after run).latest = true →
    u ∈ (empty.after run).tickets[q]? → u.isCurrent (empty.after run).latest = true → p = q
  rising : ∀ (p q : Nat) (t u : Ticket), p < q → t ∈ (empty.after run).tickets[p]? →
    u ∈ (empty.after run).tickets[q]? → t.number < u.number
  /-- If the worker brings a report, the first answer that is more than that there is nothing yet
  is this report or that the ticket is superseded, by the latest number at the end of the call. -/
  first_is_own : ∀ (past : List DeskStep) (s : DeskStep) (future : List DeskStep) (place : Nat)
    (r : Report) (a : Answer), run = past ++ s :: future → Brought place r run →
    (∀ b ∈ empty.answers place past, b = .pending) →
    (empty.after past).answerAt place s = some a → a ≠ .pending →
    (s = .conclude place ∨ s = .enter place) ∧
      a = if (empty.after past).isCurrent place then .completed r else .superseded
  /-- A delivered report was brought by the worker of that ticket before. -/
  own_report : ∀ (past : List DeskStep) (s : DeskStep) (future : List DeskStep) (place : Nat)
    (r : Report), run = past ++ s :: future →
    Delivers place r (empty.after past) s → Brought place r past
  in_order : ∀ (past : List DeskStep) (s : DeskStep) (between : List DeskStep) (s' : DeskStep)
    (future : List DeskStep) (p q : Nat) (r r' : Report),
    run = past ++ s :: between ++ s' :: future →
    Delivers p r (empty.after past) s → Delivers q r' (empty.after (past ++ s :: between)) s' →
    ∃ t ∈ (empty.after (past ++ s :: between)).tickets[p]?,
      ∃ u ∈ (empty.after (past ++ s :: between)).tickets[q]?, t.number < u.number

/-- However submissions, cancellations, workers and the steps of calls mix, each ticket gets its
own report or none, and no report is delivered after one of a newer ticket. -/
theorem every_run_is_orderly (run : List DeskStep) : Orderly run where
  one_current p q t u ht hct hu hcu := by
    have hnum : t.number = u.number :=
      (of_decide_eq_true hct).symm.trans (of_decide_eq_true hcu)
    exact (numbered_empty.after run).place_unique ht hu hnum
  rising := (numbered_empty.after run).rising
  first_is_own past s future place r a hrun hr hpast ha hne := by
    subst hrun
    exact first_answer hr hpast ha hne
  own_report past s future place r _ h := h.spends.1
  in_order past s between s' future p q r r' _ h h' := delivered_number_lt h h'

/-- A report that came by a poll, and then the report of the next request, that came by a wait. -/
theorem an_older_report_is_delivered_first :
    let past : List DeskStep := [.submit, .send 0 (Report.ofError "a"), .poll 0]
    let between : List DeskStep := [.submit, .send 1 (Report.ofError "b"), .enter 1, .take 1]
    let later := past ++ .conclude 0 :: between
    Delivers 0 (Report.ofError "a") (empty.after past) (.conclude 0) ∧
      Delivers 1 (Report.ofError "b") (empty.after later) (.conclude 1) ∧
      ∃ t ∈ (empty.after later).tickets[0]?, ∃ u ∈ (empty.after later).tickets[1]?,
        t.number < u.number := by
  intro past between later
  have h : Delivers 0 (Report.ofError "a") (empty.after past) (.conclude 0) :=
    ⟨rfl, rfl, _, rfl, .poll, rfl⟩
  have h' : Delivers 1 (Report.ofError "b") (empty.after later) (.conclude 1) :=
    ⟨rfl, rfl, _, rfl, .wait, rfl⟩
  exact ⟨h, h', (every_run_is_orderly (later ++ [.conclude 1])).in_order past (.conclude 0) between
    (.conclude 1) [] 0 1 _ _ rfl h h'⟩

end NetEditor.Training.Desk
