import Sigillum.BlindCopies
import Sigillum.Gateway
import Sigillum.Submission
import Sigillum.Verifier

/-! # SMTP sessions

`internal/smtpproxy`: the callbacks of one session, as programs over what they call —
token review, credentials, pods, the slots, the connection, the gateway and the audit
stream.  The SASL library hands an exchange to the session's authenticator at most
once, which is how an AUTH command is given here.  How a message is measured is a
parameter of the backend.  Deadlines, logs, metrics and spans are left out.
-/
namespace Sigillum
open Runes Bytes HeaderBlock Interaction

namespace SMTPProxy

/-! ## Replies -/

/-- `smtp.SMTPError`. -/
structure Reply where
  code : Nat
  enhanced : Nat × Nat × Nat
  message : Bytes
  deriving DecidableEq, Repr

/-- What a callback returns: a reply, or another error. -/
inductive SessionError where
  | reply (r : Reply)
  | other (err : Bytes)
  deriving DecidableEq, Repr

def errAuthRequired : SessionError := .reply ⟨530, (5, 7, 0), lit "Authentication required"⟩

/-- `smtp.ErrAuthUnknownMechanism`. -/
def errAuthUnknownMechanism : SessionError :=
  .reply ⟨504, (5, 7, 4), lit "Unsupported authentication mechanism"⟩

def errInvalidCredentials : SessionError :=
  .reply ⟨535, (5, 7, 8), lit "Authentication credentials invalid"⟩

def errEncryptionRequired : SessionError := .reply ⟨538, (5, 7, 11),
  lit "Encryption required for requested authentication mechanism (use STARTTLS)"⟩

def errAuthThrottled : SessionError :=
  .reply ⟨454, (4, 7, 0), lit "Too many failed authentication attempts, try again later"⟩

def errAuthUnavailable : SessionError :=
  .reply ⟨454, (4, 7, 0), lit "Temporary authentication failure"⟩

def errCredentialRevoked : SessionError :=
  .reply ⟨454, (4, 7, 0), lit "Credential no longer valid; reconnect and authenticate again"⟩

/-- `withMessageID`. -/
def withMessageID (err : SessionError) (msgID : Bytes) : SessionError :=
  match err with
  | .reply r => .reply { r with message := r.message ++ lit " (id " ++ msgID ++ lit ")" }
  | .other err => .other err

/-- `resultError`; `none` if the message was accepted. -/
def resultError (res : Result) (msgID : Bytes) : Option SessionError :=
  let e (code : Nat) (enhanced : Nat × Nat × Nat) (msg : Bytes) : Option SessionError :=
    some (withMessageID (.reply ⟨code, enhanced, msg⟩) msgID)
  match res.status with
  | .accepted => none
  | .denied =>
    match res.denyReason with
    | some .messageTooLarge => e 552 (5, 3, 4) (lit "Message exceeds policy size limit")
    | some .tooManyRecipients => e 550 (5, 5, 3) (lit "Too many recipients for policy")
    | some .noPolicy => e 550 (5, 7, 1) (lit "No matching policy")
    | reason => e 550 (5, 7, 1) (lit "Rejected by policy " ++ res.policy ++ lit ": " ++
        (reason.map DenyReason.slug).getD [])
  | .rateLimited => e 421 (4, 7, 0) (lit "Rate limit exceeded, retry in " ++
      lit (toString (res.retryAfter.tdiv Duration.second)) ++ lit "s")
  | .upstreamError =>
    if res.permanent then e 554 (5, 0, 0) (lit "Upstream relay rejected the message")
    else if 0 < res.retryAfter then e 451 (4, 4, 1) (lit "Upstream relay unavailable, retry in " ++
      lit (toString (-(-res.retryAfter / Duration.second))) ++ lit "s")
    else e 451 (4, 4, 1) (lit "Upstream relay unavailable")
  | .backendNotReady | .unavailable | .policyInvalid =>
    e 451 (4, 3, 0) (lit "Temporarily unavailable")

/-! ## What a session calls -/

/-- `audit.Event`, as a session fills it in. -/
structure SessionEvent where
  messageID : Bytes
  ns : Bytes := []
  serviceAccount : Bytes := []
  authMethod : Option AuthMethod := none
  credential : Bytes := []
  credentialPrevious : Bool := false
  fromAddr : Bytes := []
  toAddrs : List Bytes := []
  deriving DecidableEq, Repr

/-- `auth.Subject`. -/
structure Subject where
  ns : Bytes
  serviceAccount : Bytes
  deriving DecidableEq, Repr

/-- An error of a token review: `auth.ErrUnavailable`, or the token is rejected. -/
inductive TokenError where
  | unavailable
  | rejected
  deriving DecidableEq, Repr

/-- An error of `FailureLimiter.Begin`: `errThrottled`, or that of the context. -/
inductive BeginError where
  | throttled
  | context (err : Err)
  deriving DecidableEq, Repr

/-- `PodIdentity`, as far as it is used. -/
structure PodIdentity where
  ns : Bytes
  serviceAccount : Bytes
  labels : List (Bytes × Bytes)
  deriving DecidableEq, Repr

/-- An error of reading the message. -/
inductive DataError where
  | tooLarge (err : Bytes)
  | deadlineExceeded
  | tooLongLine
  | other (err : Bytes)
  deriving DecidableEq, Repr

inductive Call where
  /-- `uuid.NewString`. -/
  | newID
  /-- `time.Now().UTC().Format(time.RFC1123Z)`. -/
  | date
  | authenticate (token : Bytes)
  | lookup (username : Bytes)
  | begin (username ip : Bytes)
  | check (mc : MailCredential) (password : Bytes)
  | done (failed : Bool)
  | stillValid (r : Credential.Result)
  | resolveIP (ip : Bytes)
  | acquireTenant (ns : Bytes)
  | releaseTenant
  | acquireSlot
  | releaseSlot
  | read
  | closeAfterReply
  | reject (ev : SessionEvent) (reason : Bytes)
  | send (req : Request)

abbrev Call.Answer : Call → Type
  | .newID => Bytes
  | .date => Bytes
  | .authenticate _ => Except TokenError Subject
  | .lookup _ => Except Credential.VerifyError MailCredential
  | .begin _ _ => Except BeginError Unit
  | .check _ _ => Except Credential.VerifyError Credential.Result
  | .done _ => Unit
  | .stillValid _ => Except Credential.VerifyError Bool
  | .resolveIP _ => Except Err PodIdentity
  | .acquireTenant _ => Bool
  | .releaseTenant => Unit
  | .acquireSlot => Bool
  | .releaseSlot => Unit
  | .read => Except DataError Bytes
  | .closeAfterReply => Unit
  | .reject _ _ => Unit
  | .send _ => Result

abbrev perform (c : Call) : Prog Call Call.Answer c.Answer := Prog.perform c

/-! ## Sessions -/

/-- `Backend`: what is configured, and what is measured elsewhere. -/
structure Backend where
  tokens : Bool
  pods : Bool
  credentials : Bool
  allowInsecureCredentialAuth : Bool
  authFailures : Bool
  slots : Bool
  maxLineLength : Int
  contentSize : HeaderBlock.Message → Nat → Int

/-- `session`, with what its connection tells. -/
structure Session where
  remoteIP : Bytes
  isTLS : Bool
  identity : Option Identity := none
  cred : Option Credential.Result := none
  fromAddr : Bytes := []
  rcpts : List Bytes := []
  revoked : Bool := false
  deriving DecidableEq, Repr

/-- What a callback of a session does: it leaves the session, and returns. -/
abbrev Action := Prog Call Call.Answer (Session × Option SessionError)

namespace Session

/-- `event`. -/
def event (s : Session) (msgID fromAddr : Bytes) (toAddrs : List Bytes) : SessionEvent :=
  match s.identity with
  | some id => ⟨msgID, id.ns, id.serviceAccount, some id.authMethod, id.credential,
      id.credentialPrevious, fromAddr, toAddrs⟩
  | none => { messageID := msgID, fromAddr := fromAddr, toAddrs := toAddrs }

/-- `rejectMessage`. -/
def rejectMessage (s : Session) (msgID reason fromAddr : Bytes) (toAddrs : List Bytes) :
    Prog Call Call.Answer Unit :=
  perform (.reject (s.event msgID fromAddr toAddrs) reason)

/-- `rejectCommand`. -/
def rejectCommand (s : Session) (reason fromAddr : Bytes) (toAddrs : List Bytes) :
    Prog Call Call.Answer Unit := do
  let msgID ← perform .newID
  s.rejectMessage msgID reason fromAddr toAddrs

/-- `rejectUnauthenticated`. -/
def rejectUnauthenticated (reason : Bytes) : Prog Call Call.Answer Unit := do
  let msgID ← perform .newID
  perform (.reject { messageID := msgID } reason)

/-! ### AUTH -/

/-- `auditUsername`. -/
def auditUsername (u : Bytes) : Bytes :=
  if 317 < u.length ∨ Credential.parseUsername u = none ∨ u.any fun c => !isHostByte c then []
  else u

/-- `authFailed`. -/
def authFailed (username reason : Bytes) : Prog Call Call.Answer Unit := do
  let msgID ← perform .newID
  perform (.reject { messageID := msgID, authMethod := some .smtpCredential,
                     credential := auditUsername username } reason)

/-- `credentialAuthAllowed`. -/
def credentialAuthAllowed (b : Backend) (s : Session) : Bool :=
  b.credentials && (s.isTLS || b.allowInsecureCredentialAuth)

/-- The verdict on a user name and password: throttled, or what `Check` says. -/
def verifyLogin (b : Backend) (s : Session) (username password : Bytes) :
    Prog Call Call.Answer (Option (Except Credential.VerifyError Credential.Result)) := do
  match ← perform (.lookup username) with
  | .error err => return some (.error err)
  | .ok mc =>
    if mc.generated || !b.authFailures then
      let res ← perform (.check mc password)
      return some res
    else match ← perform (.begin username s.remoteIP) with
      | .error .throttled => return none
      | .error (.context err) => return some (.error (.other err))
      | .ok _ =>
        let res ← perform (.check mc password)
        perform (.done (res matches .error .invalid))
        return some res

/-- The session of a credential login. -/
def loggedIn (s : Session) (res : Credential.Result) : Session :=
  { s with
    cred := some res
    identity := some ⟨res.ns, res.serviceAccount, .smtpCredential, [], res.username,
      res.previous⟩ }

/-- `credentialLogin`. -/
def credentialLogin (b : Backend) (s : Session) (username password : Bytes) : Action := do
  match ← verifyLogin b s username password with
  | none =>
    authFailed username (lit "auth_rate_limited")
    return (s, some errAuthThrottled)
  | some (.error .invalid) =>
    authFailed username (lit "invalid_credentials")
    return (s, some errInvalidCredentials)
  | some (.error (.other _)) =>
    authFailed username (lit "auth_unavailable")
    return (s, some errAuthUnavailable)
  | some (.ok res) => return (s.loggedIn res, none)

/-- The authenticator of PLAIN. -/
def plainLogin (b : Backend) (s : Session) (identity username password : Bytes) : Action := do
  if identity ≠ [] ∧ identity ≠ username then
    authFailed username (lit "invalid_credentials")
    return (s, some errInvalidCredentials)
  else s.credentialLogin b username password

/-- The audit record of a token that is refused. -/
def rejectToken (reason : Bytes) : Prog Call Call.Answer Unit := do
  let msgID ← perform .newID
  perform (.reject { messageID := msgID, authMethod := some .oauthBearer } reason)

/-- The authenticator of OAUTHBEARER. -/
def tokenLogin (s : Session) (token : Bytes) : Action := do
  match ← perform (.authenticate token) with
  | .error .unavailable =>
    rejectToken (lit "auth_unavailable")
    return (s, some errAuthUnavailable)
  | .error .rejected =>
    rejectToken (lit "invalid_token")
    return (s, some errInvalidCredentials)
  | .ok subj =>
    return ({ s with
      identity := some ⟨subj.ns, subj.serviceAccount, .oauthBearer, [], [], false⟩ }, none)

end Session

/-- `loginServer`: how far the LOGIN exchange is. -/
inductive LoginServer where
  | start
  | username
  | password (username : Bytes)
  | finished
  deriving DecidableEq, Repr

/-- `loginServer.Next`, with the user name and password it hands over. -/
def LoginServer.next (response : Bytes) : LoginServer → LoginServer × Option (Bytes × Bytes)
  | .start => if response ≠ [] then (.password response, none) else (.username, none)
  | .username => (.password response, none)
  | .password u => (.finished, some (u, response))
  | .finished => (.finished, none)

/-- What the client's responses come to. -/
def LoginServer.exchange : LoginServer → List Bytes → Option (Bytes × Bytes)
  | _, [] => none
  | l, response :: more =>
    match l.next response with
    | (_, some login) => some login
    | (l, none) => l.exchange more

/-- An AUTH command: the mechanism, and what the client's responses come to.  An
exchange that is aborted or malformed hands nothing over and ends in an error. -/
inductive Exchange where
  | unknown
  | oauthBearer (token : Option Bytes)
  | plain (login : Option (Bytes × Bytes × Bytes))
  | login (responses : List Bytes)
  deriving DecidableEq, Repr

namespace Session

/-- `credentialAuth`, for one of its mechanisms. -/
def credentialAuth (b : Backend) (s : Session) (login : Option Action) : Action :=
  if b.credentials = false then return (s, some errAuthUnknownMechanism)
  else if s.credentialAuthAllowed b = false then return (s, some errEncryptionRequired)
  else match login with
  | some login => login
  | none => return (s, some errInvalidCredentials)

/-- `Auth`, to the end of the exchange. -/
def auth (b : Backend) (s : Session) : Exchange → Action
  | .unknown => return (s, some errAuthUnknownMechanism)
  | .plain login => s.credentialAuth b <|
      login.map fun (identity, username, password) => s.plainLogin b identity username password
  | .login responses => s.credentialAuth b <|
      (LoginServer.start.exchange responses).map fun (username, password) =>
        s.credentialLogin b username password
  | .oauthBearer token =>
    if b.tokens = false then return (s, some errAuthUnknownMechanism)
    else match token with
    | some token => s.tokenLogin token
    | none => return (s, some errInvalidCredentials)

/-! ### MAIL and RCPT -/

section Commands
variable (L : Libraries)

/-- `checkCredential`. -/
def checkCredential (s : Session) (msgID fromAddr : Bytes) (toAddrs : List Bytes) : Action := do
  if s.revoked then return (s, some errCredentialRevoked)
  else match s.cred with
  | none => return (s, none)
  | some r =>
    match ← perform (.stillValid r) with
    | .error .invalid =>
      s.rejectMessage msgID (lit "invalid_credentials") fromAddr toAddrs
      return ({ s with identity := none, cred := none, revoked := true },
        some errCredentialRevoked)
    | .error (.other _) =>
      s.rejectMessage msgID (lit "auth_unavailable") fromAddr toAddrs
      return (s, some errAuthUnavailable)
    | .ok previous =>
      return ({ s with identity := s.identity.map ({ · with credentialPrevious := previous }) },
        none)

/-- `identifyByPodIP`. -/
def identifyByPodIP (b : Backend) (s : Session) : Action := do
  if b.pods = false then
    rejectUnauthenticated (lit "auth_required")
    return (s, some errAuthRequired)
  else match ← perform (.resolveIP s.remoteIP) with
  | .error _ =>
    rejectUnauthenticated (lit "pod_ip_unresolved")
    return (s, some errAuthRequired)
  | .ok pod =>
    return ({ s with
      identity := some ⟨pod.ns, pod.serviceAccount, .podIPLegacy, pod.labels, [], false⟩ }, none)

/-- MAIL from an identified caller. -/
def acceptSender (s : Session) (fromAddr : Bytes) : Action := do
  if fromAddr = [] then
    s.rejectCommand (lit "null_sender") [] []
    return (s, some (.reply ⟨550, (5, 7, 1), lit "Null sender <> is not accepted for submission"⟩))
  else if (validatePlainAddress L fromAddr).isSome then
    s.rejectCommand (lit "invalid_payload") fromAddr []
    return (s, some (.reply ⟨553, (5, 1, 7), lit "Malformed sender address"⟩))
  else return ({ s with fromAddr := fromAddr }, none)

/-- `Mail`. -/
def mail (b : Backend) (s : Session) (fromAddr : Bytes) : Action := do
  let msgID ← perform .newID
  let (s, err) ← s.checkCredential msgID fromAddr []
  if err.isSome then return (s, err)
  else if s.identity = none then
    let (s, err) ← s.identifyByPodIP b
    if err.isSome then return (s, err) else s.acceptSender L fromAddr
  else s.acceptSender L fromAddr

/-- `Rcpt`. -/
def rcpt (s : Session) (toAddr : Bytes) : Action := do
  if (validatePlainAddress L toAddr).isSome then
    s.rejectCommand (lit "invalid_payload") s.fromAddr [toAddr]
    return (s, some (.reply ⟨553, (5, 1, 3), lit "Malformed recipient address"⟩))
  else return ({ s with rcpts := s.rcpts ++ [toAddr] }, none)

/-! ### DATA -/

/-- `receivedHeader`. -/
def receivedHeader (remoteIP msgID : Bytes) (authMethod : AuthMethod) (tls : Bool)
    (date : Bytes) : Bytes :=
  lit "Received: from [" ++ remoteIP ++ lit "] by sigillum with ESMTP" ++
    (if tls then lit "S" else []) ++
    (if authMethod = .oauthBearer ∨ authMethod = .smtpCredential then lit "A" else []) ++
    lit " id " ++ msgID ++ lit ";\r\n\t" ++ date ++ lit "\r\n"

/-- The `Date` line of `missingOriginationHeaders`. -/
def missingDate (h : List HeaderBlock.Field) : Prog Call Call.Answer Bytes :=
  if headerGet h (lit "Date") = [] then do
    let date ← perform .date
    return lit "Date: " ++ date ++ lit "\r\n"
  else return []

/-- `missingOriginationHeaders`. -/
def missingOriginationHeaders (h : List HeaderBlock.Field) (msgID fromAddr : Bytes) :
    Prog Call Call.Answer Bytes := do
  let date ← missingDate h
  let domain := match cutLast 64 fromAddr with
    | some (_, domain) => if domain = [] then lit "sigillum.local" else domain
    | none => lit "sigillum.local"
  return date ++ if headerGet h (canonicalKey (lit "Message-ID")) = [] then
    lit "Message-ID: <" ++ msgID ++ lit "@" ++ domain ++ lit ">\r\n" else []

/-- What the gateway is asked to send. -/
def request (b : Backend) (s : Session) (identity : Identity) (msgID relayed raw : Bytes)
    (msg : HeaderBlock.Message) (hdr : AddressHeaders) : Request where
  identity := identity
  transport := .smtp
  messageID := msgID
  message := ⟨[], ⟨[], hdr.fromAddr⟩, s.rcpts.map fun rc => ⟨[], rc⟩, [], [], [], ⟨[], []⟩, [], []⟩
  raw := some relayed
  envelopeFrom := s.fromAddr
  sender := hdr.sender
  replyTo := hdr.replyTo
  sizeBytes := b.contentSize msg raw.length

/-- The end of `Data`: the message is complete and well formed. -/
def relay (b : Backend) (s : Session) (msgID trace raw : Bytes) (msg : HeaderBlock.Message)
    (hdr : AddressHeaders) : Action := do
  let added ← missingOriginationHeaders msg.header msgID hdr.fromAddr
  let (s, err) ← s.checkCredential msgID s.fromAddr s.rcpts
  match err with
  | some err => return (s, some (withMessageID err msgID))
  | none =>
    match s.identity with
    | some identity =>
      let res ← perform (.send (s.request b identity msgID (trace ++ added ++ raw) raw msg hdr))
      return (s, resultError res msgID)
    | none => return (s, none) -- not reached: `Data` starts with an identity

/-- What `Data` answers when the message cannot be read. -/
def readFailed (b : Backend) (s : Session) (msgID : Bytes) (ev : SessionEvent) :
    DataError → Action
  | .tooLarge err => do
    perform (.reject ev (lit "message_too_large"))
    return (s, some (.other err))
  | .deadlineExceeded => do
    perform (.reject ev (lit "data_timeout"))
    perform .closeAfterReply
    return (s, some (withMessageID
      (.reply ⟨451, (4, 4, 2), lit "Timeout during data transfer"⟩) msgID))
  | .tooLongLine => do
    perform (.reject ev (lit "invalid_payload"))
    perform .closeAfterReply
    return (s, some (withMessageID (.reply ⟨550, (5, 6, 0), lit "Line longer than " ++
      lit (toString b.maxLineLength) ++ lit " bytes; use quoted-printable or base64"⟩) msgID))
  | .other err => do
    perform (.reject ev (lit "invalid_payload"))
    return (s, some (.other err))

/-- The middle of `Data`, with the slots held: the message is read and parsed. -/
def receive (b : Backend) (s : Session) (identity : Identity) (msgID : Bytes)
    (ev : SessionEvent) : Action := do
  let date ← perform .date
  let trace := receivedHeader s.remoteIP msgID identity.authMethod s.isTLS date
  match ← perform .read with
  | .error err => s.readFailed b msgID ev err
  | .ok content =>
    let raw := stripBcc L.unicode content
    match parseMessage L raw with
    | .error err =>
      perform (.reject ev (lit "invalid_payload"))
      return (s, some (.reply ⟨550, (5, 6, 0), err.text⟩))
    | .ok (msg, hdr) => s.relay b msgID trace raw msg hdr

/-- What `Data` answers when there is no slot. -/
def busy (s : Session) (msgID : Bytes) (ev : SessionEvent) (message : Bytes) : Action := do
  perform (.reject ev (lit "busy"))
  return (s, some (withMessageID (.reply ⟨451, (4, 3, 2), message⟩) msgID))

/-- `Data` with the tenant's slot held. -/
def dataInTenant (b : Backend) (s : Session) (identity : Identity) (msgID : Bytes)
    (ev : SessionEvent) : Action := do
  if b.slots then
    if ← perform .acquireSlot then
      let out ← s.receive L b identity msgID ev
      perform .releaseSlot
      return out
    else s.busy msgID ev (lit "Too many concurrent messages, try again later")
  else s.receive L b identity msgID ev

/-- `Data`. -/
def data (b : Backend) (s : Session) : Action := do
  let msgID ← perform .newID
  match s.identity with
  | none => return (s, some errAuthRequired)
  | some identity =>
    let ev := s.event msgID s.fromAddr s.rcpts
    if ← perform (.acquireTenant identity.ns) then
      let out ← s.dataInTenant L b identity msgID ev
      perform .releaseTenant
      return out
    else s.busy msgID ev (lit "Too many concurrent messages for this tenant, try again later")

/-- `Reset`. -/
def reset (s : Session) : Session := { s with fromAddr := [], rcpts := [] }

end Commands
end Session

/-! ## Callbacks -/

inductive Callback where
  | auth (x : Exchange)
  | mail (fromAddr : Bytes)
  | rcpt (toAddr : Bytes)
  | data
  | reset
  deriving DecidableEq, Repr

/-- What a callback does. -/
def Session.on (L : Libraries) (b : Backend) (s : Session) : Callback → Action
  | .auth x => s.auth b x
  | .mail fromAddr => s.mail L b fromAddr
  | .rcpt toAddr => s.rcpt L toAddr
  | .data => s.data L b
  | .reset => return (s.reset, none)

end SMTPProxy
end Sigillum
