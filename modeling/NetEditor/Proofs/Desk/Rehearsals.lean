-- The law of rehearsals. A desk in rehearsal, whose polls and waits nothing interrupts and whose
-- workers bring their reports on a sign, goes through a run like any other, with the same answers,
-- and each worker brings what its own job came to with the script. So what holds of served runs
-- holds of rehearsals.
import NetEditor.Proofs.Desk.Exchanges
import NetEditor.Training.Rehearsal

namespace NetEditor.Training

/-! ## Steps made at once -/

namespace Desk

/-- Steps at one place are made up to the first answer, which goes to the holder there. -/
theorem exists_after_of_runUntilAnswer (d : Desk) (place : Nat) (steps : List DeskStep)
    (h : ∀ s ∈ steps, s.place? = some place) :
    ∃ made, made <+: steps ∧ (d.runUntilAnswer steps).1 = d.after made ∧
      ∀ holder, d.answers holder made =
        if holder = place then (d.runUntilAnswer steps).2.toList else [] := by
  induction steps generalizing d with
  | nil => exact ⟨[], List.prefix_rfl, rfl, fun holder => by simp [answers, runUntilAnswer]⟩
  | cons s rest ih =>
    obtain ⟨hplace, hrest⟩ := List.forall_mem_cons.mp h
    unfold runUntilAnswer
    rcases hs : d.step s with ⟨next, _ | answer⟩
    · obtain ⟨made, hmade, hafter, hanswers⟩ := ih next hrest
      refine ⟨s :: made, List.cons_prefix_cons.mpr ⟨rfl, hmade⟩, by simp [hs, hafter], ?_⟩
      intro holder
      simp [answers, answerAt, hs, hanswers]
    · refine ⟨[s], by simp, by simp [hs], fun holder => ?_⟩
      by_cases hholder : holder = place
      · simp [answers, answerAt, hplace, hs, hholder]
      · simp [answers, answerAt, hplace, hholder, Ne.symm hholder]

theorem answers_eq_nil {steps : List DeskStep} (h : ∀ s ∈ steps, ∀ d : Desk, (d.step s).2 = none)
    (d : Desk) (holder : Nat) : d.answers holder steps = [] := by
  induction steps generalizing d with
  | nil => rfl
  | cons s rest ih =>
    obtain ⟨hs, hrest⟩ := List.forall_mem_cons.mp h
    simp [answers, answerAt, hs, ih hrest]

/-- Only a call is answered. -/
theorem change_no_answer (d : Desk) (place : Nat) (f : Ticket → Ticket) :
    (d.change place fun t => (f t, none)).2 = none := by
  unfold change
  cases d.tickets[place]? <;> rfl

theorem finish_eq_after (d : Desk) (place : Nat) (report : Option Report) :
    d.finish place report = d.after (report.toList.map (.send place) ++ [.leave place]) := by
  cases report <;> rfl

end Desk

namespace Rehearsal

/-! ## Moves -/

inductive Move
  | submit (job : Job)
  | cancel
  | letGo (place : Nat)
  | poll (place : Nat)
  | wait (place : Nat)
  | drop (place : Nat)

def move (r : Rehearsal) : Move → Rehearsal
  | .submit job => r.submit (job.post r.settings)
  | .cancel => r.cancel
  | .letGo place => r.letGo place
  | .poll place => (r.poll place).1
  | .wait place => (r.wait place).1
  | .drop place => r.drop place

def play (r : Rehearsal) (moves : List Move) : Rehearsal := moves.foldl move r

/-- What a move answers the holder of the ticket at a place. -/
def answerAt (r : Rehearsal) (place : Nat) : Move → Option Answer
  | .poll other => if place = other then (r.poll other).2 else none
  | .wait other => if place = other then (r.wait other).2 else none
  | _ => none

def answers (r : Rehearsal) (place : Nat) : List Move → List Answer
  | [] => []
  | m :: rest => (r.answerAt place m).toList ++ (r.move m).answers place rest

def Move.job? : Move → Option Job
  | submit job => some job
  | _ => none

variable {r : Rehearsal} {complain : String → String} {settings : Settings}
  {replies : List Reply} {jobs : List Job} {run steps : List DeskStep}

theorem answers_concat (r : Rehearsal) (place : Nat) (moves : List Move) (m : Move) :
    r.answers place (moves ++ [m]) =
      r.answers place moves ++ ((r.play moves).answerAt place m).toList := by
  induction moves generalizing r with
  | nil => simp [answers, play]
  | cons first rest ih => simp [answers, ih, play]

/-! ## The steps of a move -/

/-- Of all reports, the steps bring only those that the workers have in hand. -/
def BringsInHand (r : Rehearsal) (steps : List DeskStep) : Prop :=
  ∀ place report, .send place report ∈ steps → r.results[place]? = some (some report)

theorem bringsInHand_of_no_send {made : List DeskStep} (h : made <+: steps)
    (hsteps : ∀ place report, DeskStep.send place report ∉ steps) : r.BringsInHand made :=
  fun place report hm => absurd (h.subset hm) (hsteps place report)

theorem BringsInHand.append {more : List DeskStep} (h : r.BringsInHand steps)
    (hmore : r.BringsInHand more) : r.BringsInHand (steps ++ more) := by
  intro place report hm
  rcases List.mem_append.mp hm with hm | hm
  · exact h place report hm
  · exact hmore place report hm

/-- The move is made of these steps of the desk. -/
structure MadeOf (r : Rehearsal) (m : Move) (steps : List DeskStep) : Prop where
  desk_eq : (r.move m).desk = r.desk.after steps
  brings : r.BringsInHand steps
  answers_eq : ∀ place, r.desk.answers place steps = (r.answerAt place m).toList

theorem exists_madeOf_letGo (r : Rehearsal) (place : Nat) :
    ∃ steps, r.MadeOf (.letGo place) steps := by
  refine ⟨_, Desk.finish_eq_after _ _ _, fun place' report hm => ?_, fun holder => ?_⟩
  · simp only [List.mem_append, List.mem_map, Option.mem_toList, List.mem_singleton,
      reduceCtorEq, or_false, DeskStep.send.injEq] at hm
    obtain ⟨_, hm, rfl, rfl⟩ := hm
    rw [List.getD_eq_getElem?_getD] at hm
    cases hresult : r.results[place]? with
    | none => simp [hresult] at hm
    | some result => simpa [hresult] using hm
  · refine Desk.answers_eq_nil (fun s hs d => ?_) _ holder
    rcases List.mem_append.mp hs with hs | hs
    · obtain ⟨report, _, rfl⟩ := List.mem_map.mp hs
      exact d.change_no_answer _ _
    · obtain rfl := List.mem_singleton.mp hs
      exact d.change_no_answer _ _

/-- Every move is made of steps of the desk. A wait for a current ticket first lets its worker
go. -/
theorem exists_madeOf (r : Rehearsal) (m : Move) : ∃ steps, r.MadeOf m steps := by
  cases m with
  | submit job => exact ⟨[.submit], rfl, by simp [BringsInHand], fun _ => rfl⟩
  | cancel => exact ⟨[.cancel], rfl, by simp [BringsInHand], fun _ => rfl⟩
  | drop place =>
    refine ⟨[.drop place], rfl, by simp [BringsInHand], Desk.answers_eq_nil ?_ _⟩
    intro s hs d
    obtain rfl := List.mem_singleton.mp hs
    exact d.change_no_answer _ _
  | letGo place => exact exists_madeOf_letGo r place
  | poll place =>
    obtain ⟨made, hmade, hafter, hanswers⟩ := r.desk.exists_after_of_runUntilAnswer place
      [.poll place, .conclude place] (by simp [DeskStep.place?])
    refine ⟨made, hafter, bringsInHand_of_no_send hmade (by simp), fun holder => ?_⟩
    rw [hanswers, answerAt]
    split <;> rfl
  | wait place =>
    obtain ⟨first, hfirst, hbrings, hsilent⟩ : ∃ steps,
        (if r.desk.isCurrent place then r.letGo place else r).desk = r.desk.after steps ∧
          r.BringsInHand steps ∧ ∀ holder, r.desk.answers holder steps = [] := by
      by_cases hcurrent : r.desk.isCurrent place
      · rw [if_pos hcurrent]
        obtain ⟨steps, hsteps⟩ := exists_madeOf_letGo r place
        exact ⟨steps, hsteps.desk_eq, hsteps.brings, hsteps.answers_eq⟩
      · rw [if_neg hcurrent]
        exact ⟨[], rfl, by simp [BringsInHand], fun _ => rfl⟩
    obtain ⟨made, hmade, hafter, hanswers⟩ :=
      (r.desk.after first).exists_after_of_runUntilAnswer place
        [.enter place, .take place, .conclude place] (by simp [DeskStep.place?])
    rw [← hfirst] at hafter hanswers
    refine ⟨first ++ made, ?_, hbrings.append (bringsInHand_of_no_send hmade (by simp)),
      fun holder => ?_⟩
    · rw [Desk.after_append, ← hfirst, ← hafter]
      rfl
    · rw [Desk.answers_append, hsilent, List.nil_append, ← hfirst, hanswers, answerAt]
      split <;> rfl

/-- Whatever is no submission changes nothing but the desk. -/
theorem move_eq_of_no_job {m : Move} (h : m.job? = none) :
    r.move m = { r with desk := (r.move m).desk } := by
  cases m with
  | submit job => cases h
  | wait place =>
    unfold move wait
    by_cases hcurrent : r.desk.isCurrent place
    · simp only [if_pos hcurrent]
      rfl
    · simp only [if_neg hcurrent]
  | _ => rfl

/-! ## What is in hand -/

/-- What the script has for the post of a place; nothing where the worker is lost. -/
def scripted? (replies : List Reply) (place : Nat) (post : Post) :
    Option (Except Fault Response) :=
  ((replies[place]?).or replies.getLast?).bind (Script.replyTo post)

/-- The service as the worker of a place meets it. A lost worker brings nothing, so that for it any
answer will do. -/
def transport (replies : List Reply) (place : Nat) : Transport := fun post =>
  (scripted? replies place post).getD (.error (.network ""))

/-- How a rehearsal stands once these jobs were submitted and its desk has gone through this run. -/
structure Stands (complain : String → String) (settings : Settings) (replies : List Reply)
    (jobs : List Job) (run : List DeskStep) (r : Rehearsal) : Prop where
  complain_eq : r.complain = complain
  settings_eq : r.settings = settings
  replies_eq : r.script.replies = replies
  posts_length : r.script.posts.length = jobs.length
  results_eq : r.results = jobs.mapIdx fun place job =>
    (scripted? replies place (job.post settings)).map fun answer =>
      Report.ofOutcome (Report.ofExchange complain answer)
  desk_eq : r.desk = Desk.empty.after run
  brings : r.BringsInHand run

theorem stands_start (complain : String → String) (settings : Settings) (replies : List Reply) :
    Stands complain settings replies [] [] (start complain settings replies) :=
  ⟨rfl, rfl, rfl, rfl, rfl, rfl, by simp [BringsInHand]⟩

theorem Stands.results_submit (h : Stands complain settings replies jobs run r) (job : Job) :
    (r.submit (job.post settings)).results = (jobs ++ [job]).mapIdx fun place job =>
      (scripted? replies place (job.post settings)).map fun answer =>
        Report.ofOutcome (Report.ofExchange complain answer) := by
  rw [List.mapIdx_concat, ← h.results_eq, scripted?, ← h.posts_length, ← h.replies_eq,
    ← h.complain_eq]
  rfl

theorem Stands.move (h : Stands complain settings replies jobs run r) {m : Move}
    (hsteps : r.MadeOf m steps) :
    Stands complain settings replies (jobs ++ m.job?.toList) (run ++ steps) (r.move m) := by
  have hdesk : (r.move m).desk = Desk.empty.after (run ++ steps) := by
    rw [hsteps.desk_eq, h.desk_eq, Desk.after_append]
  have hall := h.brings.append hsteps.brings
  cases hjob : m.job? with
  | none =>
    rw [move_eq_of_no_job hjob, Option.toList_none, List.append_nil]
    exact ⟨h.complain_eq, h.settings_eq, h.replies_eq, h.posts_length, h.results_eq, hdesk, hall⟩
  | some job =>
    obtain rfl : m = .submit job := by cases m <;> simp_all [Move.job?]
    have hlength : (r.script.posts ++ [job.post r.settings]).length = (jobs ++ [job]).length := by
      simp [h.posts_length]
    refine ⟨h.complain_eq, h.settings_eq, h.replies_eq, hlength, ?_, hdesk, ?_⟩
    · rw [Rehearsal.move, h.settings_eq]
      exact h.results_submit job
    · -- a submission puts its result behind those that were there
      intro place report hm
      have hresult := hall place report hm
      have hlt := (List.getElem?_eq_some_iff.mp hresult).1
      exact (List.getElem?_append_left hlt).trans hresult

theorem stands_play (complain : String → String) (settings : Settings) (replies : List Reply)
    (moves : List Move) : ∃ run,
      Stands complain settings replies (moves.filterMap Move.job?) run
        ((start complain settings replies).play moves) ∧
      ∀ place, Desk.empty.answers place run =
        (start complain settings replies).answers place moves := by
  induction moves using List.reverseRecOn with
  | nil => exact ⟨[], stands_start complain settings replies, fun _ => rfl⟩
  | append_singleton moves m ih =>
    obtain ⟨run, hstands, hanswers⟩ := ih
    obtain ⟨steps, hsteps⟩ := exists_madeOf ((start complain settings replies).play moves) m
    refine ⟨run ++ steps, ?_, fun place => ?_⟩
    · have hnext := hstands.move hsteps
      rw [List.filterMap_append, play, List.foldl_append]
      cases m <;> exact hnext
    · rw [Desk.answers_append, hanswers, ← hstands.desk_eq, hsteps.answers_eq, answers_concat]

/-! ## The law -/

/-- Whatever is done in a rehearsal, its desk has gone through a run in which every worker did the
job that was submitted with its ticket and met the replies of the script, and the answers of the run
are those of the rehearsal. -/
theorem a_rehearsal_is_served (complain : String → String) (settings : Settings)
    (replies : List Reply) (moves : List Move) (jobs : Nat → Job)
    (hjobs : ∀ place job, (moves.filterMap Move.job?)[place]? = some job → jobs place = job) :
    ∃ run, ((start complain settings replies).play moves).desk = Desk.empty.after run ∧
      Desk.Served complain settings jobs (transport replies) run ∧
      ∀ place, Desk.empty.answers place run =
        (start complain settings replies).answers place moves := by
  obtain ⟨run, h, hanswers⟩ := stands_play complain settings replies moves
  refine ⟨run, h.desk_eq, fun place report hm => ?_, hanswers⟩
  have hresult := h.brings place report hm
  rw [h.results_eq, List.getElem?_mapIdx, Option.map_eq_some_iff] at hresult
  obtain ⟨job, hjob, hreport⟩ := hresult
  obtain ⟨answer, hanswer, rfl⟩ := Option.map_eq_some_iff.mp hreport
  rw [hjobs place job hjob, Job.report, Job.exchange, transport, hanswer, Option.getD_some]

end Rehearsal

end NetEditor.Training
