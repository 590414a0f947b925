-- Runs of a desk: any steps one after another, so that calls of different holders, workers,
-- submissions and cancellations mix in every order. A step touches at most one ticket, and what
-- it does to that ticket is one of the turns below.
import NetEditor.Training.Desk
import Mathlib.Data.List.Basic

namespace NetEditor.Training

namespace DeskStep

/-- The place of the ticket that a step is about. -/
def place? : DeskStep → Option Nat
  | submit | cancel => none
  | send p _ | leave p | poll p | enter p | take p | conclude p | drop p => some p

/-- The step makes every ticket stale that was there before. -/
def supersedes : DeskStep → Bool
  | submit | cancel => true
  | _ => false

end DeskStep

/-- The step with which the holder begins a call. -/
def Call.begin (place : Nat) : Call → DeskStep
  | poll => .poll place
  | wait => .enter place

/-! ## What a step does to a ticket -/

namespace Ticket

/-- A ticket after a step at its place, and the answer if the step ends a call. -/
def turn (t : Ticket) (latest : Nat) : DeskStep → Ticket × Option Answer
  | .submit | .cancel => (t, none)
  | .send _ report => (t.send report, none)
  | .leave _ => (t.leave, none)
  | .poll _ => t.poll
  | .enter _ => t.enter latest
  | .take _ => t.takeWaiting
  | .conclude _ => t.conclude latest
  | .drop _ => (t.drop, none)

/-- The cases of a turn. A step that is not possible leaves the ticket still. -/
inductive Turn (t : Ticket) (latest : Nat) : DeskStep → Ticket → Option Answer → Prop
  | still {s : DeskStep} (hs : ∀ p r, s ≠ .send p r) : Turn t latest s t none
  | sent {p : Nat} (r : Report) (hw : t.worker = .busy) :
      Turn t latest (.send p r) { t with inbox := some r, worker := .sent } none
  | notSent {p : Nat} {r : Report} (hw : t.worker ≠ .busy) : Turn t latest (.send p r) t none
  | left {p : Nat} : Turn t latest (.leave p) { t with worker := .gone } none
  | found {p : Nat} {r : Report} (hh : t.holder = .idle) (hi : t.inbox = some r) :
      Turn t latest (.poll p) { t with inbox := none, holder := .taken .poll (.report r) } none
  | foundNothing {p : Nat} (hh : t.holder = .idle) (hi : t.inbox = none) (hw : t.worker ≠ .gone) :
      Turn t latest (.poll p) { t with holder := .taken .poll .nothing } none
  | pollLost {p : Nat} (hh : t.holder = .idle) (hi : t.inbox = none) (hw : t.worker = .gone) :
      Turn t latest (.poll p) t (some (.completed lostReport))
  | entered {p : Nat} (hh : t.holder = .idle) (hc : t.isCurrent latest = true) :
      Turn t latest (.enter p) { t with holder := .waiting } none
  | sentAway {p : Nat} (hh : t.holder = .idle) (hc : t.isCurrent latest = false) :
      Turn t latest (.enter p) { t with holder := .done } (some .superseded)
  | received {p : Nat} {r : Report} (hh : t.holder = .waiting) (hi : t.inbox = some r) :
      Turn t latest (.take p) { t with inbox := none, holder := .taken .wait (.report r) } none
  | waitLost {p : Nat} (hh : t.holder = .waiting) (hi : t.inbox = none) (hw : t.worker = .gone) :
      Turn t latest (.take p) { t with holder := .done } (some (.completed lostReport))
  | concluded {p : Nat} {call : Call} {found : Taken} (hh : t.holder = .taken call found) :
      Turn t latest (.conclude p) (t.leaveCall call) (some (answer (t.isCurrent latest) found))
  | dropped {p : Nat} (hh : t.holder = .idle) :
      Turn t latest (.drop p) { t with holder := .done } none

theorem turn_send (t : Ticket) (latest p : Nat) (r : Report) :
    Turn t latest (.send p r) (t.send r) none := by
  unfold send
  cases hw : t.worker with
  | busy => exact .sent r hw
  | _ => exact .notSent (by simp [hw])

theorem turn_poll (t : Ticket) (latest p : Nat) : Turn t latest (.poll p) t.poll.1 t.poll.2 := by
  unfold poll take
  cases hh : t.holder with
  | idle =>
    simp only
    cases hi : t.inbox with
    | some r => exact .found hh hi
    | none =>
      by_cases hw : t.worker = .gone
      · simp only [if_pos hw]
        exact .pollLost hh hi hw
      · simp only [if_neg hw]
        exact .foundNothing hh hi hw
  | _ => exact .still (by simp)

theorem turn_enter (t : Ticket) (latest p : Nat) :
    Turn t latest (.enter p) (t.enter latest).1 (t.enter latest).2 := by
  unfold enter
  cases hh : t.holder with
  | idle =>
    simp only
    cases hc : t.isCurrent latest with
    | true => exact .entered hh hc
    | false => exact .sentAway hh hc
  | _ => exact .still (by simp)

theorem turn_take (t : Ticket) (latest p : Nat) :
    Turn t latest (.take p) t.takeWaiting.1 t.takeWaiting.2 := by
  unfold takeWaiting take
  cases hh : t.holder with
  | waiting =>
    simp only
    cases hi : t.inbox with
    | some r => exact .received hh hi
    | none =>
      by_cases hw : t.worker = .gone
      · simp only [if_pos hw]
        exact .waitLost hh hi hw
      · simp only [if_neg hw]
        exact .still (by simp)
  | _ => exact .still (by simp)

theorem turn_conclude (t : Ticket) (latest p : Nat) :
    Turn t latest (.conclude p) (t.conclude latest).1 (t.conclude latest).2 := by
  unfold conclude
  split
  · exact .concluded ‹_›
  · exact .still (by simp)

theorem turn_drop (t : Ticket) (latest p : Nat) : Turn t latest (.drop p) t.drop none := by
  unfold drop
  split
  · exact .dropped ‹_›
  · exact .still (by simp)

theorem turn_cases (t : Ticket) (latest : Nat) (s : DeskStep) :
    Turn t latest s (t.turn latest s).1 (t.turn latest s).2 := by
  cases s with
  | submit | cancel => exact .still (by simp)
  | send p r => exact turn_send t latest p r
  | leave p => exact .left
  | poll p => exact turn_poll t latest p
  | enter p => exact turn_enter t latest p
  | take p => exact turn_take t latest p
  | conclude p => exact turn_conclude t latest p
  | drop p => exact turn_drop t latest p

end Ticket

/-! ## What a step does to the desk -/

namespace Desk

variable {d : Desk} {t : Ticket} {s : DeskStep} {place : Nat}

theorem step_eq_change {q : Nat} (h : s.place? = some q) :
    d.step s = d.change q fun t => t.turn d.latest s := by
  cases s <;> cases h <;> rfl

theorem change_latest (q : Nat) (f : Ticket → Ticket × Option Answer) :
    (d.change q f).1.latest = d.latest := by
  unfold change
  split <;> rfl

/-- Only a submission and a cancellation raise the latest number, each by one. -/
theorem step_latest (d : Desk) (s : DeskStep) :
    (d.step s).1.latest = d.latest + if s.supersedes then 1 else 0 := by
  cases hp : s.place? with
  | some q =>
    have hs : s.supersedes = false := by cases s <;> simp_all [DeskStep.place?, DeskStep.supersedes]
    rw [step_eq_change hp, change_latest, hs]
    rfl
  | none => cases s <;> simp_all [DeskStep.place?, DeskStep.supersedes, step]

theorem change_length (q : Nat) (f : Ticket → Ticket × Option Answer) :
    (d.change q f).1.tickets.length = d.tickets.length := by
  unfold change
  split
  · rfl
  · simp

theorem change_ticket (h : t ∈ d.tickets[place]?) (q : Nat) (f : Ticket → Ticket × Option Answer) :
    (d.change q f).1.tickets[place]? = some (if q = place then (f t).1 else t) := by
  rw [Option.mem_def] at h
  unfold change
  by_cases hq : q = place
  · subst hq
    have hlt := (List.getElem?_eq_some_iff.mp h).1
    simp only [h, if_true]
    rw [List.getElem?_set_self hlt]
  · simp only [hq, if_false]
    split
    · exact h
    · rw [List.getElem?_set_ne hq]
      exact h

/-- A ticket takes its turn in a step at its place, and no other step touches it. -/
theorem step_ticket (h : t ∈ d.tickets[place]?) (s : DeskStep) :
    (d.step s).1.tickets[place]? =
      some (if s.place? = some place then (t.turn d.latest s).1 else t) := by
  cases hp : s.place? with
  | some q =>
    rw [step_eq_change hp, change_ticket h]
    simp
  | none =>
    have hlt := (List.getElem?_eq_some_iff.mp h).1
    cases s with
    | submit => simpa [step, List.getElem?_append_left hlt] using h
    | cancel => simpa [step] using h
    | _ => simp [DeskStep.place?] at hp

/-- A submission puts its ticket behind all others, with the next number. -/
theorem submitted_mem (d : Desk) : (⟨d.latest + 1, none, .busy, .idle⟩ : Ticket) ∈
    (d.step .submit).1.tickets[d.tickets.length]? := by
  simp [step]

/-- Every ticket was there before the step, or it is the one that the step submits. -/
theorem ticket_before {t' : Ticket} (h : t' ∈ (d.step s).1.tickets[place]?) :
    (∃ t ∈ d.tickets[place]?, t' = if s.place? = some place then (t.turn d.latest s).1 else t) ∨
      (s = .submit ∧ place = d.tickets.length ∧ t' = ⟨d.latest + 1, none, .busy, .idle⟩) := by
  cases hd : d.tickets[place]? with
  | some t =>
    rw [Option.mem_def, step_ticket hd s] at h
    exact Or.inl ⟨t, rfl, (Option.some.inj h).symm⟩
  | none =>
    right
    cases hp : s.place? with
    | some q =>
      have hlen : place < (d.change q fun t => t.turn d.latest s).1.tickets.length := by
        rw [← step_eq_change hp]
        exact (List.getElem?_eq_some_iff.mp h).1
      rw [change_length] at hlen
      simp [hlen] at hd
    | none =>
      cases s with
      | submit =>
        rw [List.getElem?_eq_none_iff] at hd
        simp only [step, List.getElem?_append_right hd, Option.mem_def,
          List.getElem?_singleton] at h
        split at h
        · exact ⟨rfl, by omega, (Option.some.inj h).symm⟩
        · cases h
      | cancel => simp [step, hd] at h
      | _ => simp [DeskStep.place?] at hp

/-- The answer that a step gives to the holder of the ticket at a place. -/
def answerAt (d : Desk) (place : Nat) (s : DeskStep) : Option Answer :=
  if s.place? = some place then (d.step s).2 else none

theorem answerAt_eq (h : t ∈ d.tickets[place]?) (s : DeskStep) :
    d.answerAt place s = if s.place? = some place then (t.turn d.latest s).2 else none := by
  unfold answerAt
  by_cases hp : s.place? = some place
  · rw [if_pos hp, if_pos hp, step_eq_change hp]
    simp [change, Option.mem_def.mp h]
  · rw [if_neg hp, if_neg hp]

/-! ## Runs -/

/-- The desk after a list of steps. -/
def after (d : Desk) (steps : List DeskStep) : Desk := steps.foldl (fun d s => (d.step s).1) d

/-- The answers that the holder of the ticket at a place gets in a list of steps. -/
def answers (d : Desk) (place : Nat) : List DeskStep → List Answer
  | [] => []
  | s :: rest => (d.answerAt place s).toList ++ (d.step s).1.answers place rest

@[simp] theorem after_nil (d : Desk) : d.after [] = d := rfl

@[simp] theorem after_cons (d : Desk) (s : DeskStep) (rest : List DeskStep) :
    d.after (s :: rest) = (d.step s).1.after rest := rfl

@[simp] theorem after_append (d : Desk) (xs ys : List DeskStep) :
    d.after (xs ++ ys) = (d.after xs).after ys := List.foldl_append

theorem answers_append (d : Desk) (place : Nat) (xs ys : List DeskStep) :
    d.answers place (xs ++ ys) = d.answers place xs ++ (d.after xs).answers place ys := by
  induction xs generalizing d with
  | nil => rfl
  | cons s rest ih => simp [answers, ih]

theorem latest_after (d : Desk) (steps : List DeskStep) :
    (d.after steps).latest = d.latest + steps.countP DeskStep.supersedes := by
  induction steps generalizing d with
  | nil => rfl
  | cons s rest ih =>
    rw [after_cons, ih, step_latest, List.countP_cons]
    omega

/-- What every turn keeps of a ticket holds after any steps. -/
theorem ticket_after {P : Ticket → Prop}
    (keep : ∀ (t : Ticket) (latest : Nat) (s : DeskStep), P t → P (t.turn latest s).1)
    (h : t ∈ d.tickets[place]?) (hP : P t) (steps : List DeskStep) :
    ∃ t' ∈ (d.after steps).tickets[place]?, P t' := by
  induction steps generalizing d t with
  | nil => exact ⟨t, h, hP⟩
  | cons s rest ih =>
    refine ih (step_ticket h s) ?_
    split
    · exact keep t d.latest s hP
    · exact hP

/-! ## What every turn keeps -/

theorem turn_number (t : Ticket) (latest : Nat) (s : DeskStep) :
    (t.turn latest s).1.number = t.number := by
  have hturn := t.turn_cases latest s
  generalize (t.turn latest s).1 = t', (t.turn latest s).2 = a at hturn ⊢
  cases hturn with
  | @concluded _ call _ _ => cases call <;> rfl
  | _ => rfl

theorem turn_gone (t : Ticket) (latest : Nat) (s : DeskStep) (h : t.worker = .gone) :
    (t.turn latest s).1.worker = .gone := by
  have hturn := t.turn_cases latest s
  generalize (t.turn latest s).1 = t', (t.turn latest s).2 = a at hturn ⊢
  cases hturn with
  | sent r hw => simp [h] at hw
  | @concluded _ call _ _ => cases call <;> exact h
  | left => rfl
  | _ => exact h

theorem turn_not_busy (t : Ticket) (latest : Nat) (s : DeskStep) (h : t.worker ≠ .busy) :
    (t.turn latest s).1.worker ≠ .busy := by
  have hturn := t.turn_cases latest s
  generalize (t.turn latest s).1 = t', (t.turn latest s).2 = a at hturn ⊢
  cases hturn with
  | @concluded _ call _ _ => cases call <;> exact h
  | sent | left => simp
  | _ => exact h

/-! ## Numbers -/

theorem number_after (h : t ∈ d.tickets[place]?) (steps : List DeskStep) :
    ∃ t' ∈ (d.after steps).tickets[place]?, t'.number = t.number :=
  ticket_after (fun u latest s hu => (turn_number u latest s).trans hu) h rfl steps

/-- The numbers rise in the order of submission, and none is above the latest. -/
structure Numbered (d : Desk) : Prop where
  le_latest : ∀ (p : Nat) (t : Ticket), t ∈ d.tickets[p]? → t.number ≤ d.latest
  rising : ∀ (p q : Nat) (t u : Ticket), p < q → t ∈ d.tickets[p]? → u ∈ d.tickets[q]? →
    t.number < u.number

theorem Numbered.step (h : Numbered d) (s : DeskStep) : Numbered (d.step s).1 := by
  have old : ∀ {p : Nat} {t t' : Ticket}, t ∈ d.tickets[p]? →
      (t' = if s.place? = some p then (t.turn d.latest s).1 else t) → t'.number = t.number := by
    intro p t t' _ heq
    subst heq
    split
    · exact turn_number t d.latest s
    · rfl
  have hmono := step_latest d s
  refine ⟨?_, ?_⟩
  · intro p t' ht'
    rcases ticket_before ht' with ⟨t, ht, heq⟩ | ⟨rfl, _, rfl⟩
    · rw [old ht heq]
      have := h.le_latest p t ht
      omega
    · exact Nat.le_refl _
  · intro p q t' u' hpq ht' hu'
    rcases ticket_before ht' with ⟨t, ht, heq⟩ | ⟨_, hp, _⟩
    · rw [old ht heq]
      rcases ticket_before hu' with ⟨u, hu, hequ⟩ | ⟨_, _, rfl⟩
      · rw [old hu hequ]
        exact h.rising p q t u hpq ht hu
      · have := h.le_latest p t ht
        show t.number < d.latest + 1
        omega
    · rcases ticket_before hu' with ⟨u, hu, _⟩ | ⟨_, hq, _⟩
      · have := (List.getElem?_eq_some_iff.mp hu).1
        omega
      · omega

theorem Numbered.after (h : Numbered d) (steps : List DeskStep) : Numbered (d.after steps) := by
  induction steps generalizing d with
  | nil => exact h
  | cons s rest ih => exact ih (h.step s)

theorem numbered_empty : Numbered empty where
  le_latest := by simp [empty]
  rising := by simp [empty]

/-- Two tickets of one number are the same ticket. -/
theorem Numbered.place_unique (h : Numbered d) {p q : Nat} {t u : Ticket}
    (ht : t ∈ d.tickets[p]?) (hu : u ∈ d.tickets[q]?) (heq : t.number = u.number) : p = q := by
  rcases Nat.lt_trichotomy p q with hlt | rfl | hlt
  · have := h.rising p q t u hlt ht hu
    omega
  · rfl
  · have := h.rising q p u t hlt hu ht
    omega

end Desk

end NetEditor.Training
