import Sigillum.Handling
import Sigillum.RequestChecks

/-! # The REST endpoint

`POST /v1/messages` in `internal/apiserver`, from the `Authorization` header to the answer:
`authMiddleware` and `bearerToken` in `server.go`, `handleSendMessage` and `writeResult` in
`messages.go`, and the budget for bodies in `bodybudget.go`.  It is a program over what the
handler calls: the token review, the semaphore of the budget, the audit stream, and what
`Gateway.Send` calls in its turn.
-/
namespace Sigillum
namespace APIServer
open Runes Bytes Interaction

/-! ## Requests and answers -/

/-- What the handler reads of an HTTP request. -/
structure HTTPRequest where
  authorization : Bytes
  contentType : Bytes
  /-- The media type `mime.ParseMediaType` returns for it, also if a parameter is malformed. -/
  mediaType : Bytes
  contentLength : Int
  /-- What reading the body yields. -/
  body : Except Err Bytes
  /-- The parts of the body as a form, and the error that ends them if not `io.EOF`. -/
  form : List FormPart × Option Err

/-- `problem.Problem`. -/
structure Document where
  type : Bytes
  title : Bytes
  status : Nat
  detail : Bytes
  policy : Bytes := []
  messageID : Bytes := []
  deriving DecidableEq, Repr

/-- What the client gets: the envelope of a message that was sent, or a problem, with the
seconds of a `Retry-After` header. -/
inductive Response where
  | accepted (messageID policy : Bytes) (acceptedAt : Int)
  | problem (d : Document) (retryAfter : Option Int)
  deriving DecidableEq, Repr

def Response.status : Response → Nat
  | accepted .. => 202
  | problem d _ => d.status

/-- `audit.Event`, as far as the endpoint fills it in. -/
structure Entry where
  messageID : Bytes
  ns : Bytes := []
  serviceAccount : Bytes := []
  authMethod : Option AuthMethod := none
  fromAddr : Bytes := []
  toAddrs : List Bytes := []
  reason : Bytes := []
  deriving DecidableEq, Repr

/-- What a record says of a request before it is read: its ID, and who sent it if known. -/
def Entry.start (msgID : Bytes) : Option Subject → Entry
  | some s => { messageID := msgID, ns := s.ns, serviceAccount := s.serviceAccount,
                authMethod := some .oauthBearer }
  | none => { messageID := msgID }

/-- An error of `Authenticate`: `auth.ErrUnavailable`, or the token is refused. -/
inductive AuthError where
  | unavailable (err : Err)
  | refused (err : Err)
  deriving DecidableEq, Repr

/-! ## What the handler calls -/

inductive Call where
  /-- `uuid.NewString`. -/
  | newID
  /-- `shutting.Load`. -/
  | shutting
  | authenticate (token : Bytes)
  /-- `Weighted.Acquire`: whether it returned without an error. -/
  | acquire (n : Nat)
  /-- `Weighted.Release`. -/
  | release (n : Nat)
  /-- `Gateway.Reject`. -/
  | reject (e : Entry)
  | gateway (c : Gateway.Call)

abbrev Call.Answer : Call → Type
  | .newID => Bytes
  | .shutting => Bool
  | .authenticate _ => Except AuthError Subject
  | .acquire _ => Bool
  | .release _ => Unit
  | .reject _ => Unit
  | .gateway c => c.Answer

abbrev Handler := Prog Call Call.Answer

abbrev perform (c : Call) : Handler c.Answer := Prog.perform c

/-- A part of the pipeline within the handler. -/
def liftGateway {α : Type} (p : Gateway.Pipeline α) : Handler α := Prog.lift .gateway p

/-! ## The budget for bodies -/

/-- What `reserve` takes of a budget, which has no bound without a positive size. -/
def reservation (size contentLength : Int) : Nat :=
  if size ≤ 0 then 0
  else if contentLength < 0 ∨ size < contentLength then size.toNat else contentLength.toNat

/-- `bodyBudget.reserve`. -/
def reserve (size contentLength : Int) : Handler Bool :=
  if reservation size contentLength = 0 then pure true
  else perform (.acquire (reservation size contentLength))

/-- The function `reserve` returns, which gives the room back. -/
def giveBack (size contentLength : Int) : Handler Unit :=
  if reservation size contentLength = 0 then pure ()
  else perform (.release (reservation size contentLength))

/-! ## Problems -/

/-- `problem.TypeBase`. -/
def typeBase : Bytes := lit "https://sigillum.dev/errors/"

/-- `problem.New`. -/
def newProblem (slug : String) (status : Nat) (title detail : Bytes) : Document :=
  ⟨typeBase ++ lit slug, title, status, detail, [], []⟩

/-- The document for a payload that is refused. -/
def payloadProblem (p : Problem) : Document :=
  if p = bodyTooLarge then newProblem "message-too-large" 413 p.title p.detail
  else newProblem "invalid-payload" 400 p.title p.detail

/-- A problem with what the gateway returned. -/
def resultProblem (slug : String) (status : Nat) (title msgID : Bytes) (res : Result) : Document :=
  { newProblem slug status title res.detail with policy := res.policy, messageID := msgID }

/-- `writePolicyDeny`. -/
def writePolicyDeny (msgID : Bytes) (res : Result) : Document :=
  match res.denyReason with
  | some .noPolicy => resultProblem "no-policy-matched" 403 (lit "No matching policy") msgID res
  | some .senderNotAllowed => resultProblem "sender-not-allowed" 403
      (if res.backend ≠ [] then lit "Sender address not allowed by backend"
        else lit "Sender address not allowed by policy") msgID res
  | some .recipientBlocked => resultProblem "recipient-not-allowed" 403
      (lit "Recipient address not allowed by policy") msgID res
  | some .messageTooLarge => resultProblem "message-too-large" 413
      (lit "Message exceeds policy size limit") msgID res
  | some .tooManyRecipients => resultProblem "too-many-recipients" 403
      (lit "Too many recipients for policy") msgID res
  | none => resultProblem "no-policy-matched" 403 (lit "Request denied") msgID res

/-- `writeUpstreamError`. -/
def writeUpstreamError (msgID : Bytes) (res : Result) : Response :=
  .problem (resultProblem "upstream-error" 502 (lit "Upstream backend error") msgID res)
    (if 0 < res.retryAfter then some (-(-res.retryAfter / Duration.second)) else none)

/-- `writeResult`. -/
def writeResult (msgID : Bytes) (res : Result) : Response :=
  match res.status with
  | .accepted => .accepted msgID res.policy res.acceptedAt
  | .denied => .problem (writePolicyDeny msgID res) none
  | .rateLimited => .problem
      (resultProblem "rate-limited" 429 (lit "Rate limit exceeded") msgID res)
      (some (res.retryAfter.tdiv Duration.second))
  | .unavailable => .problem
      (resultProblem "unavailable" 503 (lit "Service temporarily unavailable") msgID res) (some 5)
  | .backendNotReady => .problem
      (resultProblem "backend-not-ready" 503 (lit "Backend not ready") msgID res) none
  | .policyInvalid => .problem
      (resultProblem "policy-invalid" 503 (lit "Policy is invalid") msgID res) none
  | .upstreamError =>
    if res.permanent then .problem (resultProblem "upstream-rejected" 422
      (lit "Upstream backend rejected the message") msgID res) none
    else writeUpstreamError msgID res

/-! ## The handler -/

section Handlers
variable (size : Int) (L : Libraries) (D : Decoders)

/-- `bearerToken`. -/
def bearerToken (h : Bytes) : Bytes :=
  if h.length ≤ 7 ∨ !L.unicode.equalFold (h.take 7) (lit "Bearer ") then []
  else trimSpace (h.drop 7)

/-- The body of a request, unless it cannot be read.  The parts of a form are looked at one
by one, so that what is wrong with one comes before a failure to read the next. -/
def contentOf (r : HTTPRequest) : Except Problem Content :=
  if r.mediaType = lit "multipart/form-data" then
    match r.form.2 with
    | none => .ok (.form r.form.1)
    | some err =>
      match r.form.1.foldlM (readPart L D maxBody) ⟨.empty, [], 0, false⟩ with
      | .error .tooLarge => .error bodyTooLarge
      | .error (.malformed err) => .error ⟨lit "Failed to parse multipart body", err.text⟩
      | .ok _ => .error ⟨lit "Failed to parse multipart body", err.text⟩
  else match r.body with
  | .error err => .error ⟨lit "Failed to read request body", err.text⟩
  | .ok body => .ok (.json body)

/-- The addresses of a payload, if all are valid. -/
def parsedAddresses (req : RequestBody) : Except Err (Bytes × List Bytes) := do
  let fromAddr ← parseAddressHeader L req.fromAddr
  let toAddrs ← parseAddressList L req.toAddrs
  let cc ← parseAddressList L req.cc
  let bcc ← parseAddressList L req.bcc
  .ok (fromAddr.address, (toAddrs ++ cc ++ bcc).map (·.address))

/-- What an audit record says of sender and recipients when the payload is refused: what was
parsed by then, and a sender that could not be parsed as it is. -/
def knownAddresses (content : Except Problem Content) : Bytes × List Bytes :=
  match content with
  | .error _ => ([], [])
  | .ok content =>
    match readContent L D content with
    | .error _ => ([], [])
    | .ok (req, atts) =>
      match uniqueContentIDs L atts with
      | .error _ => ([], [])
      | .ok () =>
        match parsedAddresses L req.toRequestBody with
        | .error _ => (req.fromAddr, [])
        | .ok known => known

/-- Refuse a request, and say so in the audit stream. -/
def refuse (e : Entry) (reason : String) (res : Response) : Handler Response := do
  perform (.reject { e with reason := lit reason })
  pure res

/-- `rejectPayload`. -/
def rejectPayload (e : Entry) (d : Document) : Handler Response :=
  refuse e
    (if d.type = typeBase ++ lit "message-too-large" then "message_too_large"
      else "invalid_payload")
    (.problem { d with messageID := e.messageID } none)

/-- `handleSendMessage` with room for the body: it is read, checked and sent. -/
def handleBody (r : HTTPRequest) (s : Subject) (e : Entry) : Handler Response :=
  match contentOf L D r >>= Sigillum.handleSendMessage L D s e.messageID with
  | .error p =>
    let (fromAddr, toAddrs) := knownAddresses L D (contentOf L D r)
    rejectPayload { e with fromAddr, toAddrs } (payloadProblem p)
  | .ok req => do
    let res ← liftGateway (Gateway.send L req)
    pure (writeResult e.messageID res)

/-- `handleSendMessage`, over a budget. -/
def handleSendMessage (r : HTTPRequest) (subject : Option Subject) : Handler Response := do
  let msgID ← perform .newID
  let e := Entry.start msgID subject
  if ← perform .shutting then
    refuse e "shutting_down" (.problem (newProblem "shutting-down" 503 (lit "Service draining")
      (lit "the api-server is terminating; retry on a different replica")) none)
  else match subject with
  | none =>
    refuse e "missing_token" (.problem (newProblem "invalid-token" 401
      (lit "Authentication required") (lit "missing or invalid Bearer token")) none)
  | some s =>
    if r.mediaType ≠ lit "application/json" ∧ r.mediaType ≠ lit "multipart/form-data" then
      let detail := lit ("send Content-Type: application/json, " ++
        "or multipart/form-data with attachments")
      rejectPayload e (newProblem "unsupported-media-type" 415 (lit "Unsupported Content-Type")
        (if r.contentType = [] then lit "the Content-Type header is missing; " ++ detail
          else detail))
    else if ← reserve size r.contentLength then
      let res ← handleBody L D r s e
      giveBack size r.contentLength
      pure res
    else
      refuse e "busy" (.problem
        { newProblem "unavailable" 503 (lit "Too many large requests in progress")
            (lit ("the api-server is already holding its limit of request bodies; " ++
              "retry later")) with messageID := msgID } (some 5))

/-- A request without an identity is refused. -/
def refuseToken (reason : String) (res : Response) : Handler Response := do
  let msgID ← perform .newID
  refuse (.start msgID none) reason res

/-- `authMiddleware`, in front of the handler. -/
def authMiddleware (r : HTTPRequest) : Handler Response :=
  let token := bearerToken L r.authorization
  if token = [] then
    refuseToken "missing_token" (.problem (newProblem "invalid-token" 401
      (lit "Missing Bearer token") (lit "set Authorization: Bearer <token>")) none)
  else do
    match ← perform (.authenticate token) with
    | .error (.unavailable _) =>
      refuseToken "auth_unavailable" (.problem (newProblem "unavailable" 503
        (lit "Service temporarily unavailable")
        (lit "the token could not be reviewed, try again later")) (some 5))
    | .error (.refused err) =>
      refuseToken "invalid_token" (.problem (newProblem "invalid-token" 401 (lit "Invalid token")
        err.text) none)
    | .ok s => handleSendMessage size L D r (some s)

end Handlers
end APIServer
end Sigillum
