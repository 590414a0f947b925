-- One exchange with the training service: a text is posted to a path, and what comes back is
-- made into a report. A response that announces failure never reads as success. What carries a post
-- to the service and its response back is left open.
import NetEditor.Training.Report
import NetEditor.Training.Request
import NetEditor.Training.Settings

namespace NetEditor.Training

structure Post where
  path : String
  body : String
deriving DecidableEq, Repr

structure Response where
  status : Nat
  body : String
deriving DecidableEq, Repr

namespace Response

def isSuccess (status : Nat) : Bool := 200 ≤ status && status < 300

end Response

namespace Post

def run (settings : Settings) (input : Tensor) : Post :=
  ⟨settings.runPath, (runJson input).render⟩

def train (settings : Settings) (request : Request) : Post :=
  ⟨settings.trainPath, request.toJson.render⟩

end Post

/-- The report that a response is. Where the service names no error but the status is none of
success, the status is the error. -/
def Report.ofResponse (complain : String → String) (response : Response) : Except Fault Report :=
  (Report.read complain response.body).map fun report =>
    if !Response.isSuccess response.status && report.error.isNone then
      { report with error := some ("训练服务返回状态码" ++ toString response.status) }
    else report

/-- The outcome of an exchange, where the post itself may have failed. -/
def Report.ofExchange (complain : String → String) (answer : Except Fault Response) :
    Except Fault Report :=
  match answer with
  | .error fault => .error fault
  | .ok response => Report.ofResponse complain response

/-- The report of an exchange that may have failed: a failure is a report of its message. -/
def Report.ofOutcome : Except Fault Report → Report
  | .ok report => report
  | .error fault => Report.ofError fault.message

/-! ## Jobs -/

/-- Carries a post to the service, and gives the response or why there is none. That may be any
fault, also one that is never met in making a post. -/
abbrev Transport : Type := Post → Except Fault Response

inductive Job
  | run (input : Tensor)
  | train (request : Request)

namespace Job

def post (settings : Settings) : Job → Post
  | run input => .run settings input
  | train request => .train settings request

def exchange (complain : String → String) (settings : Settings) (transport : Transport)
    (job : Job) : Except Fault Report :=
  Report.ofExchange complain (transport (job.post settings))

/-- The report that the worker brings to whom the job was given. -/
def report (complain : String → String) (settings : Settings) (transport : Transport)
    (job : Job) : Report :=
  Report.ofOutcome (job.exchange complain settings transport)

end Job

end NetEditor.Training
