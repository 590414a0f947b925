-- The laws of exchanges. What a worker brings is what its exchange with the service came to, and no
-- failure on the way there or back is handed out as a success.
import NetEditor.Proofs.Desk.Retrieval
import NetEditor.Proofs.Training.Reports

namespace NetEditor.Training

/-! ## One exchange -/

def Response.Accepted (response : Response) : Prop :=
  200 ≤ response.status ∧ response.status ≤ 299

/-- The status is one of success, and the body is an object that names no error. -/
structure Response.Succeeds (response : Response) : Prop where
  accepted : response.Accepted
  no_error : ∃ fields, Json.read? response.body = some (.object fields) ∧
    Report.AllNull fields ["error", "detail"]

theorem Response.isSuccess_iff {response : Response} :
    Response.isSuccess response.status = true ↔ response.Accepted := by
  simp only [isSuccess, Accepted, Bool.and_eq_true, decide_eq_true_eq]
  omega

/-- What an exchange comes to that hides nothing of the answer to its post. -/
structure Honest (complain : String → String) (answer : Except Fault Response)
    (outcome : Except Fault Report) : Prop where
  unanswered : ∀ fault, answer = .error fault → outcome = .error fault
  /-- A body that is no report is kept whole, whatever the status. -/
  unreadable : ∀ (response : Response) (fault : Fault), answer = .ok response →
    Report.read complain response.body = .error fault →
    outcome = .error fault ∧ ∃ reason, fault = .unreadable reason response.body
  /-- Nothing is added to a report that names an error, nor to one that came with success. -/
  kept : ∀ (response : Response) (report : Report), answer = .ok response →
    Report.read complain response.body = .ok report → report.error.isSome ∨ response.Accepted →
    outcome = .ok report
  /-- Any other report gets the status for its error. -/
  marked : ∀ (response : Response) (report : Report), answer = .ok response →
    Report.read complain response.body = .ok report → report.error = none → ¬ response.Accepted →
    outcome = .ok { report with error := some ("训练服务返回状态码" ++ toString response.status) }

open Report in
theorem honest_ofExchange (complain : String → String) (answer : Except Fault Response) :
    Honest complain answer (ofExchange complain answer) where
  unanswered fault hanswer := by
    subst hanswer
    rfl
  unreadable response fault hanswer hread := by
    subst hanswer
    refine ⟨?_, of_read_error hread⟩
    simp only [ofExchange, ofResponse, hread, Except.map]
  kept response report hanswer hread hgood := by
    subst hanswer
    have hgood' : (!Response.isSuccess response.status && report.error.isNone) = false := by
      rcases hgood with hsome | haccepted
      · simp [Option.isNone_eq_false_iff.mpr hsome]
      · simp [Response.isSuccess_iff.mpr haccepted]
    simp only [ofExchange, ofResponse, hread, Except.map, hgood', Bool.false_eq_true, if_false]
  marked response report hanswer hread hnone hrefused := by
    subst hanswer
    have hbad : (!Response.isSuccess response.status && report.error.isNone) = true := by
      rw [← Response.isSuccess_iff, Bool.not_eq_true] at hrefused
      simp [hrefused, hnone]
    simp only [ofExchange, ofResponse, hread, Except.map, hbad, if_true]

open Report in
/-- Only an exchange that succeeds comes to a report without an error. -/
theorem Honest.succeeds {complain : String → String} {answer : Except Fault Response}
    {outcome : Except Fault Report} (h : Honest complain answer outcome)
    (hfine : (ofOutcome outcome).isError = false) :
    ∃ response, answer = .ok response ∧ response.Succeeds := by
  cases answer with
  | error fault =>
    rw [h.unanswered fault rfl] at hfine
    cases hfine
  | ok response =>
    refine ⟨response, rfl, ?_⟩
    cases hread : read complain response.body with
    | error fault =>
      rw [(h.unreadable response fault rfl hread).1] at hfine
      cases hfine
    | ok report =>
      by_cases hkept : report.error.isSome ∨ response.Accepted
      · rw [h.kept response report rfl hread hkept] at hfine
        have hnone : report.error = none :=
          Option.isNone_iff_eq_none.mp (Option.isSome_eq_false_iff.mp hfine)
        obtain ⟨fields, hobject, hnull⟩ := of_read_ok hread
        exact ⟨hkept.resolve_left (by simp [hnone]), fields, hobject, hnull.mp hnone⟩
      · obtain ⟨hnone, hrefused⟩ := not_or.mp hkept
        rw [h.marked response report rfl hread (by simpa using hnone) hrefused] at hfine
        cases hfine

namespace Desk

/-! ## Exchanges in flight -/

section

variable {complain : String → String} {settings : Settings} {jobs : Nat → Job}
  {transports : Nat → Transport}
  {run past : List DeskStep} {s : DeskStep} {place : Nat} {r : Report}

/-- Each worker does the job that came with its ticket, and brings what becomes of it. -/
def Served (complain : String → String) (settings : Settings) (jobs : Nat → Job)
    (transports : Nat → Transport) (run : List DeskStep) : Prop :=
  ∀ place r, .send place r ∈ run → r = (jobs place).report complain settings (transports place)

theorem send_mem_of_brought (h : Brought place r run) : .send place r ∈ run := by
  obtain ⟨past, s, future, rfl, rfl, _⟩ := h
  simp

theorem Served.brought (hserved : Served complain settings jobs transports run)
    (h : Brought place r run) : r = (jobs place).report complain settings (transports place) :=
  hserved place r (send_mem_of_brought h)

/-- A report without an error that a call is completed with is what the worker has brought, for a
lost worker is reported as an error. -/
theorem brought_of_completed (ha : (empty.after past).answerAt place s = some (.completed r))
    (hfine : r.isError = false) : Brought place r past := by
  rcases completed_cases ha with hdelivers | ⟨rfl, _⟩
  · exact hdelivers.spends.1
  · cases hfine

end

/-! ## The law -/

/-- An exchange comes to what the service answered, or to what went wrong. A call is completed
without an error only if the service answered with a status of success and an object that names no
error, and what went wrong with an exchange is a report of this and of nothing else. -/
theorem a_failed_exchange_never_looks_like_a_success (complain : String → String)
    (settings : Settings) :
    (∀ (transport : Transport) (job : Job), Honest complain (transport (job.post settings))
      (job.exchange complain settings transport)) ∧
    ∀ (jobs : Nat → Job) (transports : Nat → Transport) (run : List DeskStep),
      Served complain settings jobs transports run →
      (∀ (past : List DeskStep) (s : DeskStep) (future : List DeskStep) (place : Nat) (r : Report),
        run = past ++ s :: future → (empty.after past).answerAt place s = some (.completed r) →
        r.isError = false →
        ∃ response, transports place ((jobs place).post settings) = .ok response ∧
          response.Succeeds) ∧
      ∀ (place : Nat) (r : Report) (fault : Fault), Brought place r run →
        (jobs place).exchange complain settings (transports place) = .error fault →
        r = ⟨none, none, none, some fault.message, none⟩ := by
  refine ⟨fun transport job => honest_ofExchange _ _, ?_⟩
  intro jobs transports run hserved
  refine ⟨?_, ?_⟩
  · intro past s future place r hrun ha hfine
    have hbrought : Brought place r run := by
      rw [hrun]
      exact (brought_of_completed ha hfine).append _
    rw [hserved.brought hbrought] at hfine
    exact (honest_ofExchange _ _).succeeds hfine
  · intro place r fault hbrought hfault
    rw [hserved.brought hbrought, Job.report, hfault]
    rfl

/-- A service that is overloaded, one that is not there, and one that answers. -/
def threeServices : Nat → Transport
  | 0 => fun _ => .ok ⟨503, "\x7b\"output\":[1]\x7d"⟩
  | 1 => fun _ => .error (.network "timeout")
  | _ => fun _ => .ok ⟨200, "\x7b\"output\":[1],\"error\":null\x7d"⟩

/-- Three workers bring these reports, and then the last ticket is polled. -/
def lastOfThree (reports : Nat → Report) : List DeskStep :=
  [0, 1, 2].flatMap (fun place => [.submit, .send place (reports place)]) ++ [.poll 2, .conclude 2]

theorem served_lastOfThree (complain : String → String) (settings : Settings) (jobs : Nat → Job)
    (transports : Nat → Transport) : Served complain settings jobs transports
      (lastOfThree fun place => (jobs place).report complain settings (transports place)) := by
  intro place r hmem
  simp only [lastOfThree, List.mem_append, List.mem_flatMap, List.mem_cons, reduceCtorEq,
    DeskStep.send.injEq, List.not_mem_nil, or_false, false_or] at hmem
  obtain ⟨_, _, rfl, rfl⟩ := hmem
  rfl

-- For any reports: to compare these for equality, those of the services would be computed.
theorem brought_lastOfThree (reports : Nat → Report) :
    Brought 1 (reports 1) (lastOfThree reports) :=
  ⟨(lastOfThree reports).take 3, .send 1 (reports 1), (lastOfThree reports).drop 4, rfl, rfl, _,
    rfl, rfl⟩

theorem answerAt_lastOfThree (reports : Nat → Report) :
    lastOfThree reports = (lastOfThree reports).take 7 ++ [.conclude 2] ∧
      (empty.after ((lastOfThree reports).take 7)).answerAt 2 (.conclude 2) =
        some (.completed (reports 2)) :=
  ⟨rfl, rfl⟩

theorem one_of_three_jobs_succeeds :
    let complain : String → String := fun _ => "expected value at line 1 column 1"
    let job := Job.run ⟨[1], [.zero .single false], by decide⟩
    let reports place := job.report complain .initial (threeServices place)
    Served complain .initial (fun _ => job) threeServices (lastOfThree reports) ∧
      (reports 0).error = some "训练服务返回状态码503" ∧ (reports 0).output.isSome = true ∧
      reports 1 = ⟨none, none, none, some "网络请求失败: timeout", none⟩ ∧
      (reports 2).isError = false ∧
      ∃ response, threeServices 2 (job.post .initial) = .ok response ∧ response.Succeeds := by
  intro complain job reports
  have hserved := served_lastOfThree complain .initial (fun _ => job) threeServices
  have h := (a_failed_exchange_never_looks_like_a_success complain .initial).2 _ _ _ hserved
  obtain ⟨hlast, hanswer⟩ := answerAt_lastOfThree reports
  have hfine : (reports 2).isError = false := by decide +kernel
  refine ⟨hserved, by decide +kernel, by decide +kernel, ?_, hfine, ?_⟩
  · exact h.2 1 _ (.network "timeout") (brought_lastOfThree reports) rfl
  · exact h.1 _ _ [] 2 _ hlast hanswer hfine

end Desk

end NetEditor.Training
