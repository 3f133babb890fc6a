import ProcessDiagram.Journal
import ProcessDiagram.Region.Codec
import ProcessDiagram.Settings

/-!
Calls to the stepping service. A call posts one request and turns the response, or the lack
of one, into the next execution state or an error. A request that cannot be written is never
posted.
-/
namespace ProcessDiagram

/-- What comes back from a post. -/
inductive Response
  | unreachable (reason : String)
  | answered (ok : Bool) (status : Int) (text : String) (body : Except String Json)

structure Post where
  url : String
  body : Json
  timeout : Binary64

inductive ServiceError
  | tooDeep
  | requestFailed (url reason : String)
  | refused (status : Int) (text : String)
  | invalidJson (status : Int) (reason : String)

namespace ServiceError

def message : ServiceError → String
  | tooDeep => "Circular reference detected (depth exceeded)"
  | requestFailed url reason => "Request to " ++ url ++ " failed: " ++ reason
  | refused status text => "Backend Error " ++ toString status ++ ": " ++ text
  | invalidJson _ reason => "Backend returned invalid JSON: " ++ reason

def status? : ServiceError → Option Int
  | tooDeep | requestFailed .. => none
  | refused status _ | invalidJson status _ => some status

end ServiceError

structure SteppingService where
  url : String
  timeout : Binary64

namespace SteppingService

/-- An empty address or a missing timeout is taken from the settings. -/
def connect (url : String) (timeout : Option Binary64) (settings : Settings) : SteppingService :=
  ⟨if url.isEmpty then settings.backendUrl else url, timeout.getD settings.timeout⟩

def post (service : SteppingService) (graph : Json.Fields) (prior : Option Json.Fields)
    (preview : Bool) : Option Post :=
  { StepRequest.build graph prior with preview := preview }.toJson?.map fun body =>
    ⟨service.url, body, service.timeout⟩

/-- The next execution state. `send` stands for the network. -/
def step (service : SteppingService) (send : Post → Response) (graph : Json.Fields)
    (prior : Option Json.Fields) (preview : Bool) : Logged (Except ServiceError Json) := do
  match service.post graph prior preview with
  | none => return .error .tooDeep
  | some post =>
    let hasPrior := !(prior.getD []).isEmpty
    Logged.note .debug .client ("[client] POST " ++ service.url ++ " (prior_state="
      ++ (if hasPrior then "yes" else "no") ++ ")")
    match send post with
    | .unreachable reason =>
      Logged.note .error .client
        ("[client] Request to " ++ service.url ++ " failed: " ++ reason)
      return .error (.requestFailed service.url reason)
    | .answered ok status text body =>
      if !ok then return .error (.refused status text)
      else match body with
        | .ok value => return .ok value
        | .error reason => return .error (.invalidJson status reason)

end SteppingService
end ProcessDiagram
