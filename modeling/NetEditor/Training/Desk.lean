-- Requests in flight. Each submission gets a ticket with the next number, and only the ticket
-- with the latest number is current: a newer submission or a cancellation makes all older
-- ones stale. A worker puts at most one report into its ticket's inbox and then leaves. The
-- holder of a ticket may poll it again and again, and may wait for it once. A call of the
-- holder is made of steps between which anything else may happen: it takes what is in the
-- inbox, and it looks at the latest number.
import NetEditor.Training.Report

namespace NetEditor.Training

inductive Worker
  | busy
  | sent
  | gone
deriving DecidableEq, Repr

/-- What a holder finds on taking from an inbox. -/
inductive Taken
  | report (r : Report)
  | nothing
  | hungUp

/-- A poll comes back with nothing if there is nothing yet; a wait does not. -/
inductive Call
  | poll
  | wait
deriving DecidableEq, Repr

/-- Where the holder of a ticket is: outside any call, in a wait that found the ticket current,
in a call that has taken something, or done with the ticket. -/
inductive Holder
  | idle
  | waiting
  | taken (call : Call) (found : Taken)
  | done

structure Ticket where
  number : Nat
  inbox : Option Report
  worker : Worker
  holder : Holder

inductive Answer
  | pending
  | superseded
  | completed (report : Report)

structure Desk where
  latest : Nat
  tickets : List Ticket

/-- Whatever may happen at a desk, as steps that nothing interrupts. Tickets are named by
their place in the order of submission. -/
inductive DeskStep
  | submit
  | cancel
  | send (place : Nat) (report : Report)
  /-- The worker leaves, with or without having brought a report. -/
  | leave (place : Nat)
  /-- A poll takes what is in the inbox. -/
  | poll (place : Nat)
  /-- A wait looks whether the ticket is current. -/
  | enter (place : Nat)
  /-- A wait takes what is in the inbox. -/
  | take (place : Nat)
  /-- A call that has taken something looks whether the ticket is current. -/
  | conclude (place : Nat)
  | drop (place : Nat)

/-- The report of a request whose worker left without one. -/
def lostReport : Report := Report.ofError "请求线程意外退出"

namespace Ticket

def isCurrent (t : Ticket) (latest : Nat) : Bool := latest = t.number

def take (t : Ticket) : Taken × Ticket :=
  match t.inbox with
  | some r => (.report r, { t with inbox := none })
  | none => (if t.worker = .gone then .hungUp else .nothing, t)

/-- The ticket at the end of a call: a wait uses it up. -/
def leaveCall (t : Ticket) : Call → Ticket
  | .poll => { t with holder := .idle }
  | .wait => { t with holder := .done }

def send (t : Ticket) (report : Report) : Ticket :=
  match t.worker with
  | .busy => { t with inbox := some report, worker := .sent }
  | _ => t

def leave (t : Ticket) : Ticket := { t with worker := .gone }

/-- A poll takes from the inbox. Where the worker has hung up, that is the answer. -/
def poll (t : Ticket) : Ticket × Option Answer :=
  match t.holder with
  | .idle => match t.take with
    | (.hungUp, t) => (t, some (.completed lostReport))
    | (found, t) => ({ t with holder := .taken .poll found }, none)
  | _ => (t, none)

/-- A wait begins. A stale ticket is answered at once. -/
def enter (t : Ticket) (latest : Nat) : Ticket × Option Answer :=
  match t.holder with
  | .idle =>
    if t.isCurrent latest then ({ t with holder := .waiting }, none)
    else ({ t with holder := .done }, some .superseded)
  | _ => (t, none)

/-- A wait takes from the inbox, and goes on waiting while there is nothing. -/
def takeWaiting (t : Ticket) : Ticket × Option Answer :=
  match t.holder with
  | .waiting => match t.take with
    | (.hungUp, t) => ({ t with holder := .done }, some (.completed lostReport))
    | (.nothing, t) => (t, none)
    | (.report r, t) => ({ t with holder := .taken .wait (.report r) }, none)
  | _ => (t, none)

/-- The answer to what a call has taken. -/
def answer (current : Bool) : Taken → Answer
  | .report r => if current then .completed r else .superseded
  | .nothing => if current then .pending else .superseded
  | .hungUp => .completed lostReport

def conclude (t : Ticket) (latest : Nat) : Ticket × Option Answer :=
  match t.holder with
  | .taken call found => (t.leaveCall call, some (answer (t.isCurrent latest) found))
  | _ => (t, none)

def drop (t : Ticket) : Ticket :=
  match t.holder with
  | .idle => { t with holder := .done }
  | _ => t

end Ticket

namespace Desk

def empty : Desk := ⟨0, []⟩

def change (d : Desk) (place : Nat) (f : Ticket → Ticket × Option Answer) :
    Desk × Option Answer :=
  match d.tickets[place]? with
  | none => (d, none)
  | some t =>
    let (t, answer) := f t
    ({ d with tickets := d.tickets.set place t }, answer)

/-- What a step makes of the desk, and the answer if the step ends a call. A step that is not
possible changes nothing. -/
def step (d : Desk) : DeskStep → Desk × Option Answer
  | .submit =>
    let number := d.latest + 1
    (⟨number, d.tickets ++ [⟨number, none, .busy, .idle⟩]⟩, none)
  | .cancel => ({ d with latest := d.latest + 1 }, none)
  | .send place report => d.change place fun t => (t.send report, none)
  | .leave place => d.change place fun t => (t.leave, none)
  | .poll place => d.change place Ticket.poll
  | .enter place => d.change place fun t => t.enter d.latest
  | .take place => d.change place Ticket.takeWaiting
  | .conclude place => d.change place fun t => t.conclude d.latest
  | .drop place => d.change place fun t => (t.drop, none)

def runUntilAnswer (d : Desk) : List DeskStep → Desk × Option Answer
  | [] => (d, none)
  | s :: rest =>
    match d.step s with
    | (d, some answer) => (d, some answer)
    | (d, none) => d.runUntilAnswer rest

def poll (d : Desk) (place : Nat) : Desk × Option Answer :=
  d.runUntilAnswer [.poll place, .conclude place]

/-- A wait that nothing interrupts. It has no answer while the worker is busy. -/
def wait (d : Desk) (place : Nat) : Desk × Option Answer :=
  d.runUntilAnswer [.enter place, .take place, .conclude place]

def finish (d : Desk) (place : Nat) (report : Option Report) : Desk :=
  let d := match report with
    | some r => (d.step (.send place r)).1
    | none => d
  (d.step (.leave place)).1

def isCurrent (d : Desk) (place : Nat) : Bool :=
  match d.tickets[place]? with
  | some t => t.isCurrent d.latest
  | none => false

end Desk

end NetEditor.Training
