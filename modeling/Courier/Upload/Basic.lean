import Courier.Json.Display
import Courier.Log.Basic
import Courier.Text.Blank

/-!
# Uploading collections

A collection is put to the address of its service, as the body of a request that carries the key of
the user.  `Upload.prepare` says what is sent, and `Upload.conclude` what an answer means.
-/

namespace Courier

/-- A request that puts a collection to a service. -/
structure Call where
  url : String
  headers : List (String × String)
  body : Json
  timeout : Nat
  deriving Repr

/-- What comes back: an answer, or the text of a failure. -/
inductive Reply where
  | answer (status : Int) (reason text : String)
  | failure (message : String)
  deriving DecidableEq, Repr

/-- Why an upload fails. -/
inductive UploadFault where
  | missingId
  | missingKey
  | unreachable (message : String)
  | refused (status : Int) (reason text : String)
  deriving DecidableEq, Repr

namespace UploadFault

/-- The status of an answer that refuses. -/
def status? : UploadFault → Option Int
  | .refused status _ _ => some status
  | _ => none

def message : UploadFault → String
  | .missingId => "A Postman collection id is required for upload"
  | .missingKey =>
    "A Postman API key is required for upload (use --postman-api-key or POSTMAN_API_KEY)"
  | .unreachable text => s!"Failed to update collection: {text}"
  | .refused status reason text =>
    s!"Failed to update collection: Postman API error: {status} {reason} - {text}"

end UploadFault

namespace Upload

/-- The address of the service. -/
def serviceUrl : String := "https://api.getpostman.com"

/-- The seconds after which an upload is given up. -/
def timeout : Nat := 30

/-- The key to use: the one that is given, or else the one of the surroundings. -/
def resolveKey (given surrounding : Option String) : Option String :=
  match given with
  | some key => if key = "" then surrounding else some key
  | none => surrounding

/-- A text that is there and not empty. -/
def present? (value : Option String) : Option String := value.filter (· ≠ "")

/-- The address of a collection. -/
def collectionUrl (base id : String) : String :=
  String.ofList (Text.dropEndWhile (· == '/') base.toList) ++ s!"/collections/{id}"

/-- What is sent to update a collection. -/
def prepare (base : String) (id key : Option String) (collection : Json) :
    Except UploadFault Call :=
  match present? id, present? key with
  | none, _ => .error .missingId
  | _, none => .error .missingKey
  | some id, some key =>
    .ok {
      url := collectionUrl base id
      headers := [("Content-Type", "application/json"), ("X-Api-Key", key)]
      body := .object [("collection", collection)]
      timeout }

/-- A status that does not tell of an error. -/
def isAccepted (status : Int) : Bool := status < 400 || status ≥ 600

/-- What a reply means: the status, or a fault. -/
def conclude : Reply → Except UploadFault Int
  | .failure message => .error (.unreachable message)
  | .answer status reason text =>
    if isAccepted status then .ok status else .error (.refused status reason text)

/-- What is reported about a reply. -/
def notice? : Reply → Option String
  | .failure _ => none
  | .answer status reason _ => some s!"STATUS: {status} {reason} (0 ms)"

/-- Sends a call through `send` and reports about it. -/
def run {m : Type → Type} [Monad m] (report : Log.Level → String → m Unit)
    (send : Call → m Reply) (call : Call) : m (Except UploadFault Int) := do
  report .info s!"Uploading collection to {call.url}"
  let reply ← send call
  if let some text := notice? reply then report .debug text
  return conclude reply

end Upload

end Courier
