-- A desk in rehearsal: its service plays a script, and a worker that has its reply in hand brings
-- it only when it is let go, so that every order of events can be tried out.
import NetEditor.Training.Desk
import NetEditor.Training.Exchange

namespace NetEditor.Training

/-! ## Scripts -/

inductive Reply
  | response (r : Response)
  | network (reason : String)
  /-- Gives back the data of the input as output. -/
  | echo
  /-- The worker that posted comes to an end without an answer. -/
  | lost
deriving DecidableEq, Repr

structure Script where
  replies : List Reply
  /-- What was posted so far, oldest first. -/
  posts : List Post

namespace Script

def member (name : String) : Json → Json
  | .object fields => (Dictionary.get? name fields).getD .null
  | _ => .null

def echoBody (body : String) : String :=
  let request := (Json.read? body).getD .null
  (Json.object [("output", member "data" (member "input" request))]).render

def replyTo (post : Post) : Reply → Option (Except Fault Response)
  | .response r => some (.ok r)
  | .network reason => some (.error (.network reason))
  | .echo => some (.ok ⟨200, echoBody post.body⟩)
  | .lost => none

def post (s : Script) (p : Post) : Option (Except Fault Response) × Script :=
  let reply := (s.replies[s.posts.length]?).or s.replies.getLast?
  (reply.bind (replyTo p), { s with posts := s.posts ++ [p] })

end Script

/-! ## Rehearsals -/

/-- A desk whose service plays a script and whose workers end when they are let go. -/
structure Rehearsal where
  /-- What is said of a response that is no JSON. -/
  complain : String → String
  settings : Settings
  script : Script
  desk : Desk
  /-- What each worker will bring, in the order of submission. -/
  results : List (Option Report)

namespace Rehearsal

def start (complain : String → String) (settings : Settings) (replies : List Reply) : Rehearsal :=
  ⟨complain, settings, ⟨replies, []⟩, .empty, []⟩

/-- Submits a post; its worker has the reply in hand but does not bring it yet. -/
def submit (r : Rehearsal) (post : Post) : Rehearsal :=
  let (reply, script) := r.script.post post
  { r with
    script := script
    desk := (r.desk.step .submit).1
    results := r.results ++ [reply.map fun answer =>
      Report.ofOutcome (Report.ofExchange r.complain answer)] }

def letGo (r : Rehearsal) (place : Nat) : Rehearsal :=
  { r with desk := r.desk.finish place (r.results.getD place none) }

def cancel (r : Rehearsal) : Rehearsal := { r with desk := (r.desk.step .cancel).1 }

def drop (r : Rehearsal) (place : Nat) : Rehearsal :=
  { r with desk := (r.desk.step (.drop place)).1 }

def poll (r : Rehearsal) (place : Nat) : Rehearsal × Option Answer :=
  let (desk, answer) := r.desk.poll place
  ({ r with desk := desk }, answer)

/-- Waits for a ticket. The worker of a current ticket is let go first, for the wait would
not end before. -/
def wait (r : Rehearsal) (place : Nat) : Rehearsal × Option Answer :=
  let r := if r.desk.isCurrent place then r.letGo place else r
  let (desk, answer) := r.desk.wait place
  ({ r with desk := desk }, answer)

end Rehearsal

end NetEditor.Training
