-- The laws of superseded tickets: what a call on a ticket comes back with once a later submission
-- or a cancellation has happened.
import NetEditor.Proofs.Desk.Call

namespace NetEditor.Training.Desk

variable {d : Desk} {t t' : Ticket} {place : Nat}

/-! ## When the worker has hung up -/

theorem turn_not_gone (t : Ticket) (latest : Nat) {s : DeskStep} (hp : s.place? = some place)
    (hs : s ≠ .leave place) (h : t.worker ≠ .gone) : (t.turn latest s).1.worker ≠ .gone := by
  have hturn := t.turn_cases latest s
  generalize (t.turn latest s).1 = t', (t.turn latest s).2 = a at hturn ⊢
  cases hturn with
  | sent => simp
  | @concluded _ call _ _ => cases call <;> exact h
  | left =>
    cases hp
    exact absurd rfl hs
  | _ => exact h

theorem gone_iff_leave_mem (ht : t ∈ d.tickets[place]?) (hw : t.worker ≠ .gone)
    (steps : List DeskStep) (ht' : t' ∈ (d.after steps).tickets[place]?) :
    t'.worker = .gone ↔ .leave place ∈ steps := by
  induction steps generalizing d t with
  | nil =>
    obtain rfl : t = t' := Option.some.inj (ht.symm.trans ht')
    simp [hw]
  | cons s rest ih =>
    have hstep := step_ticket ht s
    by_cases hs : s = .leave place
    · subst hs
      obtain ⟨u, hu, hgone⟩ := ticket_after turn_gone hstep (by simp [DeskStep.place?]; rfl) rest
      obtain rfl : u = t' := Option.some.inj (hu.symm.trans ht')
      simp [hgone]
    · rw [ih hstep ?_ ht']
      · simp [Ne.symm hs]
      · split
        · exact turn_not_gone t d.latest ‹_› hs hw
        · exact hw

/-! ## Stale tickets -/

theorem answer_stale (t : Ticket) : Ticket.answer false t.found = .superseded := by
  unfold Ticket.found
  cases t.inbox <;> rfl

/-- A ticket below the latest number is stale, and stays so however the number rises. -/
theorem isCurrent_of_number_lt {n : Nat} (h : t.number < n) : t.isCurrent n = false := by
  simp only [Ticket.isCurrent, decide_eq_false_iff_not]
  omega

/-- A call on a stale ticket comes back superseded if it does not find the worker gone. -/
theorem outcome_stale (ht : t ∈ d.tickets[place]?) (hh : t.holder = .idle)
    (hstale : t.number < d.latest) (call : Call) (hcall : ¬ (call = .poll ∧ t.HungUp))
    (steps : List DeskStep) :
    (∀ a, d.outcome place call steps = some a → a = .superseded) ∧
      ((call.toMake place).Sublist steps → d.outcome place call steps = some .superseded) := by
  cases call with
  | wait =>
    rw [outcome_wait_stale ht hh (isCurrent_of_number_lt hstale)]
    simp [eq_comm]
  | poll =>
    rcases outcome_poll ht hh (fun hg => hcall ⟨rfl, hg⟩) steps with ⟨hnone, hrest⟩ | ⟨n, _, hsome⟩
    · rw [hnone]
      refine ⟨by simp, fun hsub => ?_⟩
      exact absurd (List.singleton_sublist.mp hsub) hrest
    · rw [hsome, isCurrent_of_number_lt (by omega : t.number < d.latest + n), answer_stale]
      simp [eq_comm]

theorem number_of_submitted {before between : List DeskStep}
    (ht : t ∈ (empty.after (before ++ .submit :: between)).tickets[
      (empty.after before).tickets.length]?) :
    t.number = (empty.after before).latest + 1 := by
  obtain ⟨u, hu, hnum⟩ := number_after (submitted_mem (empty.after before)) between
  rw [after_append, after_cons] at ht
  obtain rfl : u = t := Option.some.inj (hu.symm.trans ht)
  exact hnum

/-! ## The laws -/

/-- Once a later submission or a cancellation has happened, a call on the older ticket comes back
superseded, whatever happens meanwhile. The one exception is a poll that finds the worker gone
and the inbox empty: it reports the worker lost. So it is when the worker has left and an earlier
call has taken what it brought, if it brought anything. -/
theorem an_old_ticket_is_superseded_unless_its_worker_hung_up
    (before between steps : List DeskStep) (place : Nat) (t : Ticket) (call : Call)
    (hplace : place = (empty.after before).tickets.length)
    (hlater : ∃ s ∈ between, s.supersedes = true)
    (ht : t ∈ (empty.after (before ++ .submit :: between)).tickets[place]?)
    (hh : t.holder = .idle) :
    let run := before ++ .submit :: between
    let back := (empty.after run).outcome place call steps
    (t.HungUp ↔ .leave place ∈ between ∧ ∀ r, Brought place r run → Fetched place r run) ∧
      (call = .poll ∧ t.HungUp → back = some (.completed lostReport)) ∧
      (¬ (call = .poll ∧ t.HungUp) → (∀ a, back = some a → a = .superseded) ∧
        ((call.toMake place).Sublist steps → back = some .superseded)) := by
  intro run back
  subst hplace
  refine ⟨?_, ?_, ?_⟩
  · have hgone := gone_iff_leave_mem (submitted_mem (empty.after before)) (by simp) between
      (by rwa [after_append] at ht)
    rw [hungUp_iff ht, hgone]
  · rintro ⟨rfl, hg⟩
    exact outcome_poll_hungUp ht hh hg steps
  · intro hcall
    refine outcome_stale ht hh ?_ call hcall steps
    have hcount := List.countP_pos_iff.mpr hlater
    have hlatest : (empty.after run).latest =
        (empty.after before).latest + 1 + between.countP DeskStep.supersedes := by
      rw [after_append, after_cons, latest_after _ between, step_latest]
      rfl
    rw [number_of_submitted ht, hlatest]
    omega

/-- A cancelled ticket whose worker died: a poll reports the worker lost, and a wait does not. -/
theorem a_cancelled_ticket_without_a_worker :
    let run : List DeskStep := [.submit, .cancel, .leave 0]
    (∃ s ∈ [DeskStep.cancel, .leave 0], s.supersedes = true) ∧
      (⟨1, none, .gone, .idle⟩ : Ticket) ∈ (empty.after run).tickets[0]? ∧
      (empty.after run).outcome 0 .poll [.submit] = some (.completed lostReport) ∧
      (empty.after run).outcome 0 .wait [.submit] = some .superseded := by
  have hlater : ∃ s ∈ [DeskStep.cancel, .leave 0], s.supersedes = true := ⟨.cancel, by simp, rfl⟩
  have hpoll := an_old_ticket_is_superseded_unless_its_worker_hung_up [] [.cancel, .leave 0]
    [.submit] 0 ⟨1, none, .gone, .idle⟩ .poll rfl hlater rfl rfl
  have hwait := an_old_ticket_is_superseded_unless_its_worker_hung_up [] [.cancel, .leave 0]
    [.submit] 0 ⟨1, none, .gone, .idle⟩ .wait rfl hlater rfl rfl
  refine ⟨hlater, rfl, hpoll.2.1 ⟨rfl, rfl, rfl⟩, ?_⟩
  obtain ⟨h1, _⟩ := hwait.2.2 (by simp)
  exact congrArg some (h1 _ rfl)

/-- Supersession is not final for those who poll on: the report that came late is thrown away by
the first poll after the cancellation, and the second then takes the worker for lost. -/
theorem a_second_poll_of_an_old_ticket_is_not_superseded :
    ¬ ∀ (before between steps : List DeskStep) (t : Ticket) (call : Call) (a : Answer),
      (∃ s ∈ between, s.supersedes = true) →
      t ∈ (empty.after (before ++ .submit :: between)).tickets[
        (empty.after before).tickets.length]? → t.holder = .idle →
      (empty.after (before ++ .submit :: between)).outcome (empty.after before).tickets.length
        call steps = some a → a = .superseded := by
  intro h
  have hlost := h [] [.cancel, .send 0 (Report.ofError "late"), .leave 0, .poll 0, .conclude 0] []
    ⟨1, none, .gone, .idle⟩ .poll (.completed lostReport) ⟨.cancel, by simp, rfl⟩ rfl rfl rfl
  cases hlost

end NetEditor.Training.Desk
