import Sluice.Job.Model

/-! What a worker does to carry a job out. -/

namespace Sluice

/-- The payload of a webhook job. -/
structure WebhookPayload where
  url : String
  method : String
  headers : List (String × String)
  body : Option Json
  deriving DecidableEq

/-- The payload before any member is decoded. -/
def WebhookPayload.zero : WebhookPayload := ⟨"", "", [], none⟩

/-- Gives a name of a map another text. -/
def putText (texts : List (String × String)) (name text : String) : List (String × String) :=
  texts.filter (·.1 != name) ++ [(name, text)]

/-- Decodes one member of a map of strings, where a later member replaces an earlier one. -/
def setHeader (headers : List (String × String)) (name : String) (value : Json) :
    Option (List (String × String)) :=
  (decodeString "" value).map (putText headers name)

/-- Decodes one member into the field it names, if it names one. -/
def WebhookPayload.setField (p : WebhookPayload) (name : String) (value : Json) :
    Option WebhookPayload :=
  if namesField name "url" then (decodeString p.url value).map fun url => { p with url }
  else if namesField name "method" then
    (decodeString p.method value).map fun method => { p with method }
  else if namesField name "headers" then
    match value with
    | .null => some { p with headers := [] }
    | .object fields => (decodeMembers setHeader p.headers fields).map fun headers =>
        { p with headers }
    | _ => none
  else if namesField name "body" then some { p with body := some value }
  else some p

/-- `json.Unmarshal` into a webhook payload, which takes objects and `null`. -/
def WebhookPayload.unmarshal : Json → Option WebhookPayload
  | .null => some .zero
  | .object fields => decodeMembers setField .zero fields
  | _ => none

/-- A request as it is handed to the HTTP client. -/
structure WebhookRequest where
  method : String
  url : String
  headers : List (String × String)
  body : Option Json
  deriving DecidableEq

/-- The characters that the name of a header is made of. -/
def isTokenChar (c : Char) : Bool := c.isAlphanum || "!#$%&'*+-.^_`|~".toList.contains c

/-- Letters as capitals where a word begins, and as small ones elsewhere. -/
def capitalize : Bool → List Char → List Char
  | _, [] => []
  | begins, c :: rest => (if begins then c.toUpper else c.toLower) :: capitalize (c == '-') rest

/-- `http.CanonicalHeaderKey`, which leaves alone what cannot be the name of a header. -/
def canonicalHeaderKey (name : String) : String :=
  if name.toList.all isTokenChar then String.ofList (capitalize true name.toList) else name

/-- `Header.Set`. -/
def headerSet (headers : List (String × String)) (h : String × String) : List (String × String) :=
  putText headers (canonicalHeaderKey h.1) h.2

/-- The world outside, with the errors that libraries report about it. -/
structure Web where
  -- The order in which `range` goes through the headers of a payload.
  order : List (String × String) → List (String × String)
  complete : ∀ headers, (order headers).Perm headers
  -- What `json.Unmarshal` says about a payload that it cannot decode.
  undecodable : Option Json → String
  -- Why `http.NewRequestWithContext` refuses a request, if it does.
  malformed : WebhookRequest → Option String
  -- The status of the answer that `client.Do` gets within its timeout, or its error.
  answer : WebhookRequest → Except String Nat
  -- What `client.Do` says when its context is cancelled.
  canceled : WebhookRequest → String

/-- The request for a payload. -/
def WebhookPayload.request (web : Web) (p : WebhookPayload) : WebhookRequest where
  method := if p.method = "" then "POST" else p.method
  url := p.url
  headers :=
    let set := (web.order p.headers).foldl headerSet []
    -- The payload is asked for this very spelling, and any other one is overwritten.
    if !p.headers.any (·.1 == "Content-Type") && p.body.isSome then
      headerSet set ("Content-Type", "application/json")
    else set
  body := p.body

/-- A web in which every request is answered with the same status. -/
def Web.answering (status : Nat) : Web where
  order headers := headers
  complete _ := .refl _
  undecodable _ := "unexpected end of JSON input"
  malformed _ := none
  answer _ := .ok status
  canceled _ := "context canceled"

/-- `executeWebhook`, under a context that is cancelled before the answer comes or is not. -/
def executeWebhook (web : Web) (canceled : Bool) (j : Job) : Except String Unit :=
  match j.payload.bind WebhookPayload.unmarshal with
  | none => .error ("invalid webhook payload: " ++ web.undecodable j.payload)
  | some p =>
    let request := p.request web
    match web.malformed request with
    | some message => .error ("build request: " ++ message)
    | none =>
      match if canceled then .error (web.canceled request) else web.answer request with
      | .error message => .error ("webhook request: " ++ message)
      | .ok status =>
        if status ≥ 400 then .error ("webhook returned " ++ toString status) else .ok ()

/-- `execute`. -/
def execute (web : Web) (canceled : Bool) (j : Job) : Except String Unit :=
  if j.type = "webhook" then executeWebhook web canceled j
  else .error ("unknown job type: " ++ j.type)

end Sluice
