import Sigillum.Driver
import Sigillum.Interaction

/-! # The SMTP driver

`internal/driver/smtp`: one conversation with an endpoint (`sendVia`) and the loop
over the endpoints (`sendBody`), as programs over what they call in `net` and
`net/smtp`.  A command of the conversation fails or not, whatever the reason;
deadlines are left out, as a command that runs into one fails like any other.  So
are metrics.
-/
namespace Sigillum
open Runes Bytes Duration Interaction

namespace SMTP

/-! ## Errors -/

/-- An error of a command, with the reply if `errors.As` finds a `*textproto.Error`. -/
structure CommandError where
  text : Bytes
  reply : Option (Int × Bytes)
  deriving DecidableEq, Repr

/-- What `sendVia` returns: `configError` and `deliveryError` are marked as such. -/
inductive SendError where
  | plain (err : CommandError)
  | config (text : Bytes)
  | delivery (err : CommandError)
  deriving DecidableEq, Repr

namespace SendError

def text : SendError → Bytes
  | .plain err | .delivery err => err.text
  | .config text => text

/-- What `errors.As` finds as a `*textproto.Error`. -/
def reply : SendError → Option (Int × Bytes)
  | .plain err | .delivery err => err.reply
  | .config _ => none

end SendError

section Errors
variable (L : Libraries)

/-- `isTooManyRecipients`. -/
def isTooManyRecipients (msg : Bytes) : Bool :=
  (lit "4.5.3").isPrefixOf (trimSpace msg) ||
    occurrences (lit "too many recipient") (L.unicode.toLower (trimSpace msg)) != 0

/-- `isTransient`. -/
def isTransient : SendError → Bool
  | .config _ => false
  | .plain _ => true
  | .delivery err =>
    match err.reply with
    | some (code, msg) =>
      if code = 452 ∧ isTooManyRecipients L msg = true then false else decide (code < 500)
    | none => true

/-- `strconv.Atoi` on what is only digits; `0` on anything else. -/
def atoi (s : Bytes) : Int :=
  if s.all fun c => 48 ≤ c && c ≤ 57 then s.foldl (fun n c => 10 * n + (c.toNat - 48)) 0 else 0

/-- The pattern of a delay in a reply. -/
def retryDelay : Bytes :=
  lit ("(?i)\\b(?:retry|try again)\\s+(?:in|after)\\s+(\\d\x7b1,6\x7d)\\s*" ++
  "(s|secs?|seconds?|m|mins?|minutes?)\\b")

variable (findStringSubmatch : Bytes → Bytes → Option (List Bytes))

/-- `retryHint`; `findStringSubmatch` takes a pattern and a text. -/
def retryHint (err : SendError) : Int :=
  match err.reply with
  | none => 0
  | some (code, msg) =>
    if code ≠ 421 ∧ code ≠ 451 then 0
    else match findStringSubmatch retryDelay msg with
    | none => 0
    | some m =>
      let n := atoi (m.getD 1 [])
      if (lit "m").isPrefixOf (L.unicode.toLower (m.getD 2 [])) then n * minute else n * second

end Errors

/-- `MaxRetryAfter`. -/
def maxRetryAfter : Int := 10 * minute

/-- `driver.WithRetryAfter`. -/
def withRetryAfter (err : Err) (after : Int) : Err :=
  if after ≤ 0 then err else { err with retryAfter := min after maxRetryAfter }

/-! ## The conversation -/

/-- What fails or not. -/
inductive Command where
  | dial (ep : SMTPEndpoint)
  | setDeadline
  | newClient (host : Bytes)
  | hello (name : Bytes)
  | startTLS (ep : SMTPEndpoint)
  | auth (mech : AuthType) (username password host : Bytes)
  | contextErr
  | mail (addr : Bytes)
  | rcpt (addr : Bytes)
  | data
  | write (body : Bytes)
  | close
  deriving DecidableEq, Repr

inductive Call where
  | command (c : Command)
  | extension (name : Bytes)
  | quit
  | closeConn
  deriving DecidableEq, Repr

abbrev Call.Answer : Call → Type
  | .command _ => Option CommandError
  | .extension _ => Bool
  | .quit | .closeConn => Unit

/-- A part of the conversation. -/
abbrev Talk := Prog Call Call.Answer

abbrev perform (c : Call) : Talk c.Answer := Prog.perform c

/-- Commands in order, up to the first that fails. -/
def inOrder (mark : CommandError → SendError) : List Command → Talk (Option SendError)
  | [] => pure none
  | c :: cs => do
    match ← perform (.command c) with
    | some err => pure (some (mark err))
    | none => inOrder mark cs

/-- The second part, if the first does not fail. -/
def andThen (first second : Talk (Option SendError)) : Talk (Option SendError) := do
  match ← first with
  | some err => pure (some err)
  | none => second

section Conversation
variable (L : Libraries) (cfg : SMTPConfig)

/-- `helo`. -/
def helo : Bytes := if cfg.helo ≠ [] then cfg.helo else lit "sigillum"

/-- The step of `sendVia` for `tls: starttls`. -/
def startTLS (ep : SMTPEndpoint) : Talk (Option SendError) :=
  if ep.tls = .startTLS then do
    if ← perform (.extension (lit "STARTTLS")) then inOrder .plain [.startTLS ep]
    else pure (some (.plain ⟨lit "server does not advertise STARTTLS", none⟩))
  else pure none

/-- Whether the driver authenticates. -/
def authConfigured : Bool := decide (cfg.authType ≠ .unset) && decide (cfg.authType ≠ .none)

/-- The step of `sendVia` that authenticates, and `buildAuth`. -/
def authenticate (ep : SMTPEndpoint) : Talk (Option SendError) :=
  if authConfigured cfg then
    if ep.tls = .none then
      pure (some (.config (lit "authType " ++ cfg.authType.text ++ lit " requires TLS; endpoint " ++
        ep.host ++ lit " uses tls: none, which would send the relay password in cleartext")))
    else match cfg.authType with
    | .plain | .login | .cramMD5 =>
      inOrder .plain [.auth cfg.authType cfg.username cfg.password ep.host]
    | mech => pure (some (.plain ⟨lit "unsupported auth type " ++ quote L.unicode mech.text, none⟩))
  else pure none

/-- What comes before the relay judges the message. -/
def handshake (ep : SMTPEndpoint) : Talk (Option SendError) :=
  andThen (inOrder .plain [.hello (helo cfg)])
    (andThen (startTLS ep)
      (andThen (authenticate L cfg ep) (inOrder .plain [.setDeadline, .contextErr])))

/-- From here on the relay judges the message. -/
def transfer (envelopeFrom : Bytes) (rcpts : List Bytes) (body : Bytes) : Talk (Option SendError) :=
  inOrder .delivery (.mail envelopeFrom :: rcpts.map .rcpt ++ [.data, .write body, .close])

/-- `sendVia`. -/
def sendVia (ep : SMTPEndpoint) (envelopeFrom : Bytes) (rcpts : List Bytes) (body : Bytes) :
    Talk (Option SendError) := do
  match ← perform (.command (.dial ep)) with
  | some err => pure (some (.plain err))
  | none => do
    let res ← andThen (inOrder .plain [.setDeadline, .newClient ep.host]) do
      let res ← andThen (handshake L cfg ep) (transfer envelopeFrom rcpts body)
      perform .quit
      pure res
    perform .closeConn
    pure res

/-! ## The loop over the endpoints -/

/-- The loop of `sendBody`, with the last error and whether all errors were
transient; `none` if an endpoint accepted the message. -/
def tryEndpoints (envelopeFrom : Bytes) (rcpts : List Bytes) (body : Bytes) :
    List SMTPEndpoint → Option SendError → Bool → Talk (Option (Option SendError × Bool))
  | [], lastErr, transient => pure (some (lastErr, transient))
  | ep :: eps, _, transient => do
    match ← sendVia L cfg ep envelopeFrom rcpts body with
    | none => pure none
    | some (.delivery err) =>
      pure (some (some (.delivery err), transient && isTransient L (.delivery err)))
    | some err =>
      tryEndpoints envelopeFrom rcpts body eps (some err) (transient && isTransient L err)

/-- `sendBody`; `now` is the clock at its end. -/
def sendBody (findStringSubmatch : Bytes → Bytes → Option (List Bytes)) (now : Int)
    (envelopeFrom : Bytes) (rcpts : List Bytes) (body msgID : Bytes) :
    Talk (Except Err SendResult) := do
  match ← tryEndpoints L cfg envelopeFrom rcpts body cfg.endpoints none true with
  | none => pure (.ok ⟨msgID, now⟩)
  | some (lastErr, transient) =>
    let text := (lastErr.map SendError.text).getD Sentinel.noReadyEndpoint.text
    if transient then
      pure (.error (withRetryAfter
        ⟨Sentinel.upstreamTransient.text ++ lit ": " ++ text, [.upstreamTransient], 0⟩
        ((lastErr.map (retryHint L findStringSubmatch)).getD 0)))
    else
      pure (.error
        ⟨Sentinel.upstreamPermanent.text ++ lit ": " ++ text, [.upstreamPermanent], 0⟩)

end Conversation
end SMTP
end Sigillum
