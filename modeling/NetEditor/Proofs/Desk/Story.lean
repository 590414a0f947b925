-- What has become of the report of each ticket in a run: not brought yet, in the inbox, in the
-- hands of a call, or given up with an answer. A ticket's state and its past agree on this.
import NetEditor.Proofs.Desk.Run
import Mathlib.Data.List.Induction

namespace NetEditor.Training

namespace Desk

/-! ## What happened in a run -/

/-- In a run from the empty desk, a step of this sort was made at some moment. -/
def Occurs (event : Desk → DeskStep → Prop) (run : List DeskStep) : Prop :=
  ∃ past s future, run = past ++ s :: future ∧ event (empty.after past) s

def Brings (place : Nat) (r : Report) (d : Desk) (s : DeskStep) : Prop :=
  s = .send place r ∧ ∃ t ∈ d.tickets[place]?, t.worker = .busy

/-- A report is taken out of the inbox of the ticket at a place. -/
def Fetches (place : Nat) (r : Report) (d : Desk) (s : DeskStep) : Prop :=
  ∃ t ∈ d.tickets[place]?, t.inbox = some r ∧ ∃ t' ∈ (d.step s).1.tickets[place]?, t'.inbox = none

def Brought (place : Nat) (r : Report) (run : List DeskStep) : Prop := Occurs (Brings place r) run

/-- A call of the holder has taken a report out of the inbox. -/
def Fetched (place : Nat) (r : Report) (run : List DeskStep) : Prop :=
  Occurs (Fetches place r) run

theorem Occurs.append {event : Desk → DeskStep → Prop} {run : List DeskStep} (h : Occurs event run)
    (more : List DeskStep) : Occurs event (run ++ more) := by
  obtain ⟨past, s, future, rfl, he⟩ := h
  exact ⟨past, s, future ++ more, by simp, he⟩

theorem occurs_snoc {event : Desk → DeskStep → Prop} {run : List DeskStep} {s : DeskStep} :
    Occurs event (run ++ [s]) ↔ Occurs event run ∨ event (empty.after run) s := by
  constructor
  · rintro ⟨past, s', future, h, he⟩
    rcases List.eq_nil_or_concat future with rfl | ⟨front, last, rfl⟩
    · obtain ⟨rfl, h1⟩ := List.append_inj' h rfl
      cases h1
      exact Or.inr he
    · have h' : run ++ [s] = (past ++ s' :: front) ++ [last] := by simpa using h
      obtain ⟨rfl, _⟩ := List.append_inj' h' rfl
      exact Or.inl ⟨past, s', front, rfl, he⟩
  · rintro (h | h)
    · exact h.append [s]
    · exact ⟨run, s, [], rfl, h⟩

variable {place : Nat} {t : Ticket} {run : List DeskStep} {s : DeskStep}

theorem brought_snoc (h : t ∈ (empty.after run).tickets[place]?) (s : DeskStep) (r : Report) :
    Brought place r (run ++ [s]) ↔
      Brought place r run ∨ (s = .send place r ∧ t.worker = .busy) := by
  simp only [Brought, occurs_snoc, Brings]
  rw [Option.mem_def] at h
  simp [h]

theorem fetched_snoc {t' : Ticket} (h : t ∈ (empty.after run).tickets[place]?)
    (h' : t' ∈ (empty.after (run ++ [s])).tickets[place]?) (r : Report) :
    Fetched place r (run ++ [s]) ↔
      Fetched place r run ∨ (t.inbox = some r ∧ t'.inbox = none) := by
  simp only [Fetched, occurs_snoc, Fetches]
  rw [Option.mem_def] at h h'
  simp only [after_append, after_cons, after_nil] at h'
  simp [h, h']

theorem answers_snoc (place : Nat) (run : List DeskStep) (s : DeskStep) :
    empty.answers place (run ++ [s]) =
      empty.answers place run ++ ((empty.after run).answerAt place s).toList := by
  simp [answers_append, answers]

/-- A step that leaves the inbox alone takes no report out of it. -/
theorem fetched_snoc_of_inbox_eq {t' : Ticket} (h : t ∈ (empty.after run).tickets[place]?)
    (h' : t' ∈ (empty.after (run ++ [s])).tickets[place]?) (hi : t'.inbox = t.inbox) (r : Report) :
    Fetched place r (run ++ [s]) ↔ Fetched place r run := by
  rw [fetched_snoc h h', hi]
  constructor
  · rintro (hf | ⟨h1, h2⟩)
    · exact hf
    · rw [h1] at h2
      cases h2
  · exact Or.inl

end Desk

/-! ## The report of a ticket -/

/-- No call holds a report in its hands. -/
def Ticket.EmptyHanded (t : Ticket) : Prop :=
  t.holder = .idle ∨ t.holder = .waiting ∨ t.holder = .taken .poll .nothing ∨ t.holder = .done

/-- The worker has left and there is nothing in the inbox. -/
def Ticket.HungUp (t : Ticket) : Prop := t.inbox = none ∧ t.worker = .gone

namespace Desk

/-- Where the report of a ticket is, as its past and its state both tell it. -/
inductive Story (place : Nat) (run : List DeskStep) (t : Ticket) : Prop
  | unsent (hb : ∀ r, ¬ Brought place r run) (hf : ∀ r, ¬ Fetched place r run)
      (hi : t.inbox = none) (hw : t.worker ≠ .sent) (hh : t.EmptyHanded)
  | lying (r : Report) (hb : ∀ r', Brought place r' run ↔ r' = r)
      (hf : ∀ r', ¬ Fetched place r' run) (hi : t.inbox = some r) (hw : t.worker ≠ .busy)
      (hh : t.EmptyHanded)
  | inHand (r : Report) (call : Call) (hb : ∀ r', Brought place r' run ↔ r' = r)
      (hf : ∀ r', Fetched place r' run ↔ r' = r) (hi : t.inbox = none) (hw : t.worker ≠ .busy)
      (hh : t.holder = .taken call (.report r))
  | settled (r : Report) (hb : ∀ r', Brought place r' run ↔ r' = r)
      (hf : ∀ r', Fetched place r' run ↔ r' = r) (hi : t.inbox = none) (hw : t.worker ≠ .busy)
      (hh : t.EmptyHanded) (ha : ∃ a ∈ empty.answers place run, a ≠ .pending)

variable {place : Nat} {t t' : Ticket} {run : List DeskStep} {s : DeskStep}

/-- A step that brings no report and takes none leaves the report where it is. -/
theorem Story.quiet (h : Story place run t) (ht : t ∈ (empty.after run).tickets[place]?)
    (ht' : t' ∈ (empty.after (run ++ [s])).tickets[place]?)
    (hs : ∀ r, ¬ (s = .send place r ∧ t.worker = .busy)) (hi : t'.inbox = t.inbox)
    (hw : t'.worker = t.worker ∨ t'.worker = .gone)
    (hh : t'.holder = t.holder ∨ t.EmptyHanded ∧ t'.EmptyHanded) : Story place (run ++ [s]) t' := by
  have hb : ∀ r, Brought place r (run ++ [s]) ↔ Brought place r run := fun r => by
    rw [brought_snoc ht, or_iff_left (hs r)]
  have hf := fetched_snoc_of_inbox_eq ht ht' hi
  have hempty : t.EmptyHanded → t'.EmptyHanded := by
    intro he
    rcases hh with hh | hh
    · unfold Ticket.EmptyHanded
      rw [hh]
      exact he
    · exact hh.2
  cases h with
  | unsent hb0 hf0 hi0 hw0 hh0 =>
    refine .unsent ?_ ?_ (hi.trans hi0) ?_ (hempty hh0)
    · simpa only [hb] using hb0
    · simpa only [hf] using hf0
    · rcases hw with hw | hw <;> simp [hw, hw0]
  | lying r hb0 hf0 hi0 hw0 hh0 =>
    refine .lying r ?_ ?_ (hi.trans hi0) ?_ (hempty hh0)
    · simpa only [hb] using hb0
    · simpa only [hf] using hf0
    · rcases hw with hw | hw <;> simp [hw, hw0]
  | inHand r call hb0 hf0 hi0 hw0 hh0 =>
    refine .inHand r call ?_ ?_ (hi.trans hi0) ?_ ?_
    · simpa only [hb] using hb0
    · simpa only [hf] using hf0
    · rcases hw with hw | hw <;> simp [hw, hw0]
    · rcases hh with hh | ⟨he, _⟩
      · exact hh.trans hh0
      · simp [Ticket.EmptyHanded, hh0] at he
  | settled r hb0 hf0 hi0 hw0 hh0 ha =>
    refine .settled r ?_ ?_ (hi.trans hi0) ?_ (hempty hh0) ?_
    · simpa only [hb] using hb0
    · simpa only [hf] using hf0
    · rcases hw with hw | hw <;> simp [hw, hw0]
    · obtain ⟨a, hmem, hne⟩ := ha
      exact ⟨a, by simp [answers_snoc, hmem], hne⟩

theorem Story.sent (h : Story place run t) {r : Report}
    (ht : t ∈ (empty.after run).tickets[place]?) (hw : t.worker = .busy)
    (ht' : { t with inbox := some r, worker := .sent } ∈
      (empty.after (run ++ [.send place r])).tickets[place]?) :
    Story place (run ++ [.send place r]) { t with inbox := some r, worker := .sent } := by
  cases h with
  | unsent hb hf hi _ hh =>
    refine .lying r ?_ ?_ rfl (by simp) hh
    · intro r'
      simp [brought_snoc ht, hb, hw, eq_comm]
    · intro r'
      simp [fetched_snoc ht ht', hf]
  | lying _ _ _ _ hw' => exact absurd hw hw'
  | inHand _ _ _ _ _ hw' => exact absurd hw hw'
  | settled _ _ _ _ hw' => exact absurd hw hw'

theorem Story.fetched (h : Story place run t) {r : Report} {call : Call}
    (ht : t ∈ (empty.after run).tickets[place]?) (hi : t.inbox = some r)
    (hs : ∀ r, s ≠ .send place r)
    (ht' : { t with inbox := none, holder := .taken call (.report r) } ∈
      (empty.after (run ++ [s])).tickets[place]?) :
    Story place (run ++ [s]) { t with inbox := none, holder := .taken call (.report r) } := by
  cases h with
  | lying r0 hb hf hi0 hw hh =>
    obtain rfl : r0 = r := Option.some.inj (hi0.symm.trans hi)
    refine .inHand r0 call ?_ ?_ rfl hw rfl
    · intro r'
      simp [brought_snoc ht, hb, hs]
    · intro r'
      simp [fetched_snoc ht ht', hf, hi, eq_comm]
  | unsent _ _ hi' => simp [hi] at hi'
  | inHand _ _ _ _ hi' => simp [hi] at hi'
  | settled _ _ _ hi' => simp [hi] at hi'

/-- A call ends, and if it had the report in its hands, it has answered with more than that there
is nothing yet. -/
theorem Story.concluded (h : Story place run t) {call : Call} {found : Taken} {current : Bool}
    (ht : t ∈ (empty.after run).tickets[place]?) (hh : t.holder = .taken call found)
    (hs : ∀ r, s ≠ .send place r)
    (ha : (empty.after run).answerAt place s = some (Ticket.answer current found))
    (ht' : t.leaveCall call ∈ (empty.after (run ++ [s])).tickets[place]?) :
    Story place (run ++ [s]) (t.leaveCall call) := by
  have hinbox : (t.leaveCall call).inbox = t.inbox := by cases call <;> rfl
  have hworker : (t.leaveCall call).worker = t.worker := by cases call <;> rfl
  have hleft : (t.leaveCall call).EmptyHanded := by
    cases call <;> simp [Ticket.leaveCall, Ticket.EmptyHanded]
  have hquiet : ∀ r, ¬ (s = .send place r ∧ t.worker = .busy) := fun r hr => hs r hr.1
  cases h with
  | inHand r call' hb hf hi hw hh' =>
    obtain ⟨rfl, rfl⟩ : call = call' ∧ found = .report r := by simpa [hh] using hh'
    refine .settled r ?_ ?_ (hinbox.trans hi) (hworker ▸ hw) hleft ?_
    · intro r'
      simp [brought_snoc ht, hb, hs]
    · intro r'
      rw [fetched_snoc_of_inbox_eq ht ht' hinbox, hf]
    · refine ⟨Ticket.answer current (.report r), by simp [answers_snoc, ha], ?_⟩
      cases current <;> simp [Ticket.answer]
  | unsent hb hf hi hw hh' =>
    exact (Story.unsent hb hf hi hw hh').quiet ht ht' hquiet hinbox (.inl hworker)
      (.inr ⟨hh', hleft⟩)
  | lying r hb hf hi hw hh' =>
    exact (Story.lying r hb hf hi hw hh').quiet ht ht' hquiet hinbox (.inl hworker)
      (.inr ⟨hh', hleft⟩)
  | settled r hb hf hi hw hh' hpast =>
    exact (Story.settled r hb hf hi hw hh' hpast).quiet ht ht' hquiet hinbox (.inl hworker)
      (.inr ⟨hh', hleft⟩)

/-- A step at the place of a ticket takes its story on. -/
theorem Story.turn (h : Story place run t) (ht : t ∈ (empty.after run).tickets[place]?)
    (hp : s.place? = some place)
    (ht' : (t.turn (empty.after run).latest s).1 ∈ (empty.after (run ++ [s])).tickets[place]?) :
    Story place (run ++ [s]) (t.turn (empty.after run).latest s).1 := by
  have hturn := t.turn_cases (empty.after run).latest s
  have ha := answerAt_eq ht s
  rw [if_pos hp] at ha
  generalize (t.turn (empty.after run).latest s).1 = t', (t.turn (empty.after run).latest s).2 = a
    at hturn ha ht' ⊢
  cases hturn with
  | still hs => exact h.quiet ht ht' (fun r hr => hs place r hr.1) rfl (.inl rfl) (.inl rfl)
  | sent r hw =>
    cases hp
    exact h.sent ht hw ht'
  | notSent hw => exact h.quiet ht ht' (fun r hr => hw hr.2) rfl (.inl rfl) (.inl rfl)
  | left => exact h.quiet ht ht' (by simp) rfl (.inr rfl) (.inl rfl)
  | found hh hi => exact h.fetched ht hi (by simp) ht'
  | foundNothing hh =>
    exact h.quiet ht ht' (by simp) rfl (.inl rfl)
      (.inr ⟨by simp [Ticket.EmptyHanded, hh], by simp [Ticket.EmptyHanded]⟩)
  | pollLost => exact h.quiet ht ht' (by simp) rfl (.inl rfl) (.inl rfl)
  | entered hh =>
    exact h.quiet ht ht' (by simp) rfl (.inl rfl)
      (.inr ⟨by simp [Ticket.EmptyHanded, hh], by simp [Ticket.EmptyHanded]⟩)
  | sentAway hh =>
    exact h.quiet ht ht' (by simp) rfl (.inl rfl)
      (.inr ⟨by simp [Ticket.EmptyHanded, hh], by simp [Ticket.EmptyHanded]⟩)
  | received hh hi => exact h.fetched ht hi (by simp) ht'
  | waitLost hh =>
    exact h.quiet ht ht' (by simp) rfl (.inl rfl)
      (.inr ⟨by simp [Ticket.EmptyHanded, hh], by simp [Ticket.EmptyHanded]⟩)
  | concluded hh => exact h.concluded ht hh (by simp) ha ht'
  | dropped hh =>
    exact h.quiet ht ht' (by simp) rfl (.inl rfl)
      (.inr ⟨by simp [Ticket.EmptyHanded, hh], by simp [Ticket.EmptyHanded]⟩)

theorem not_occurs_of_no_ticket {event : Desk → DeskStep → Prop}
    (hevent : ∀ d s, event d s → ∃ t, t ∈ d.tickets[place]?)
    (hnone : (empty.after run).tickets[place]? = none) : ¬ Occurs event run := by
  rintro ⟨past, s, future, rfl, he⟩
  obtain ⟨t, ht⟩ := hevent _ _ he
  obtain ⟨t', ht', _⟩ := number_after ht (s :: future)
  rw [after_append, Option.mem_def.mp ht'] at hnone
  cases hnone

theorem story_submitted (number : Nat) :
    Story (empty.after run).tickets.length (run ++ [.submit]) ⟨number, none, .busy, .idle⟩ := by
  have hnone : (empty.after run).tickets[(empty.after run).tickets.length]? = none := by simp
  refine .unsent ?_ ?_ rfl (by simp) (.inl rfl)
  · intro r
    rw [Brought, occurs_snoc]
    rintro (h | ⟨h, _⟩)
    · exact not_occurs_of_no_ticket (fun d s he => ⟨_, he.2.choose_spec.1⟩) hnone h
    · cases h
  · intro r
    rw [Fetched, occurs_snoc]
    rintro (h | ⟨t, ht, _⟩)
    · exact not_occurs_of_no_ticket (fun d s he => ⟨_, he.choose_spec.1⟩) hnone h
    · rw [hnone] at ht
      cases ht

theorem story (place : Nat) (run : List DeskStep) (t : Ticket)
    (h : t ∈ (empty.after run).tickets[place]?) : Story place run t := by
  induction run using List.reverseRecOn generalizing t with
  | nil => simp [empty] at h
  | append_singleton run s ih =>
    have hstep := h
    rw [after_append] at hstep
    rcases ticket_before hstep with ⟨u, hu, rfl⟩ | ⟨rfl, rfl, rfl⟩
    · by_cases hp : s.place? = some place
      · rw [if_pos hp] at h ⊢
        exact (ih u hu).turn hu hp h
      · rw [if_neg hp] at h ⊢
        refine (ih u hu).quiet hu h ?_ rfl (.inl rfl) (.inl rfl)
        rintro r ⟨rfl, _⟩
        exact hp rfl
    · exact story_submitted _

/-! ## What the stories tell -/

/-- A worker brings only one report. -/
theorem brought_unique {r r' : Report} (h : Brought place r run) (h' : Brought place r' run) :
    r = r' := by
  obtain ⟨past, s, future, rfl, _, t, ht, _⟩ := id h
  obtain ⟨t', ht', _⟩ := number_after ht (s :: future)
  rw [← after_append] at ht'
  cases story place _ t' ht' with
  | unsent hb => exact absurd h (hb r)
  | lying _ hb | inHand _ _ hb | settled _ hb => exact ((hb r).mp h).trans ((hb r').mp h').symm

/-- A worker that has left or brought its report brings no other. -/
theorem brought_append_iff (ht : t ∈ (empty.after run).tickets[place]?) (hw : t.worker ≠ .busy)
    (future : List DeskStep) (r : Report) :
    Brought place r (run ++ future) ↔ Brought place r run := by
  induction future using List.reverseRecOn with
  | nil => rw [List.append_nil]
  | append_singleton front s ih =>
    obtain ⟨u, hu, hbusy⟩ := ticket_after turn_not_busy ht hw front
    rw [← after_append] at hu
    rw [← List.append_assoc, brought_snoc hu, ih]
    simp [hbusy]

/-- The worker has hung up once it has left and an earlier call has taken what it brought. -/
theorem hungUp_iff (ht : t ∈ (empty.after run).tickets[place]?) :
    t.HungUp ↔ t.worker = .gone ∧ ∀ r, Brought place r run → Fetched place r run := by
  unfold Ticket.HungUp
  rw [and_comm]
  refine and_congr_right fun _ => ?_
  cases story place run t ht with
  | unsent hb hf hi => simp [hi, hb]
  | lying r hb hf hi => simp [hi, hb, hf]
  | inHand r call hb hf hi => simp [hi, hb, hf]
  | settled r hb hf hi => simp [hi, hb, hf]

end Desk

end NetEditor.Training
