import Mathlib.Data.List.AList
import Sigillum.Driver
import Sigillum.Interaction

/-! # The send pipeline

`internal/gateway`: `Gateway.Send` as a program over what it calls — the policy
store, the reader, the validity cache, the limiter, the driver and the audit
stream.  `validityCache.check` is two calls, one for each of its locked sections,
so that other sends can come between them.  Log lines, metrics and spans are left
out.
-/
namespace Sigillum
open Runes Bytes Interaction

/-! ## Requests and results -/

/-- How a caller authenticated. -/
inductive AuthMethod where
  | oauthBearer
  | podIPLegacy
  | smtpCredential
  deriving DecidableEq, Repr

inductive Transport where
  | rest
  | smtp
  deriving DecidableEq, Repr

structure Identity where
  ns : Bytes
  serviceAccount : Bytes
  authMethod : AuthMethod
  podLabels : List (Bytes × Bytes)
  credential : Bytes
  credentialPrevious : Bool
  deriving DecidableEq, Repr

structure Request where
  identity : Identity
  transport : Transport
  messageID : Bytes
  message : Message
  /-- Relayed as it is, when set. -/
  raw : Option Bytes
  envelopeFrom : Bytes
  sender : Bytes
  replyTo : List Bytes
  sizeBytes : Int
  deriving DecidableEq, Repr

inductive Status where
  | accepted
  | denied
  | rateLimited
  | backendNotReady
  | upstreamError
  | unavailable
  | policyInvalid
  deriving DecidableEq, Repr

structure Result where
  status : Status
  policy : Bytes
  backend : Bytes := []
  denyReason : Option DenyReason := none
  detail : Bytes := []
  retryAfter : Int := 0
  permanent : Bool := false
  upstreamID : Bytes := []
  acceptedAt : Int := 0
  deriving DecidableEq, Repr

inductive AuditDecision where
  | accept
  | reject
  deriving DecidableEq, Repr

/-- `audit.Event`, without what the audit logger adds. -/
structure AuditEvent where
  messageID : Bytes
  ns : Bytes
  serviceAccount : Bytes
  authMethod : AuthMethod
  credential : Bytes
  credentialPrevious : Bool
  transport : Transport
  fromAddr : Bytes
  toAddrs : List Bytes
  policy : Bytes
  backend : Bytes
  decision : AuditDecision
  reason : Bytes
  deriving DecidableEq, Repr

namespace Request

/-- What the policy is evaluated on. -/
def view (req : Request) : MessageView where
  fromAddr := req.message.fromAddr.address
  envelopeFrom := req.envelopeFrom
  sender := req.sender
  recipients := req.message.recipients
  replyTo := req.replyTo
  sizeBytes := req.sizeBytes

/-- The audit record of a request. -/
def event (req : Request) (policy backend : Bytes) (decision : AuditDecision) (reason : Bytes) :
    AuditEvent where
  messageID := req.messageID
  ns := req.identity.ns
  serviceAccount := req.identity.serviceAccount
  authMethod := req.identity.authMethod
  credential := req.identity.credential
  credentialPrevious := req.identity.credentialPrevious
  transport := req.transport
  fromAddr := req.view.fromAddr
  toAddrs := req.view.recipients
  policy := policy
  backend := backend
  decision := decision
  reason := reason

/-- The caller `Match` looks for, given the labels of its service account if known. -/
def caller (req : Request) (labels : Option (List (Bytes × Bytes))) : Caller where
  ns := req.identity.ns
  serviceAccount := req.identity.serviceAccount
  saLabels := labels.getD []
  saLabelsKnown := labels.isSome
  legacyPodIP := req.identity.authMethod == .podIPLegacy
  podLabels := req.identity.podLabels

end Request

namespace Gateway

/-! ## What the pipeline calls -/

/-- An entry of the validity cache. -/
structure Validity where
  generation : Int
  err : Option InvalidObject
  deriving DecidableEq, Repr

/-- A `Secret` object. -/
structure Secret where
  name : Bytes
  ns : Bytes
  data : List (Bytes × Bytes)
  deriving DecidableEq, Repr

/-- Why a `Secret` could not be read, as far as the resolver tells. -/
inductive ReadError where
  | notFound
  | secretNamespace (err : Err)
  | other (err : Err)
  deriving DecidableEq, Repr

inductive Call where
  | listInNamespace (ns : Bytes)
  | getServiceAccount (ns name : Bytes)
  | lookup (uid : Bytes)
  | store (uid : Bytes) (v : Validity)
  | getMailBackend (ns name : Bytes)
  | getClusterMailBackend (name : Bytes)
  | getSecret (ns name : Bytes)
  | newDriver (cfg : Config)
  | allow (key : Bytes) (limits : Limits)
  | refund (key : Bytes)
  | send (msg : Message)
  | sendRaw (envelopeFrom : Bytes) (recipients : List Bytes) (raw : Bytes)
  | close
  | record (ev : AuditEvent)

abbrev Call.Answer : Call → Type
  | .listInNamespace _ => List MailPolicy
  | .getServiceAccount _ _ => Except Err (List (Bytes × Bytes))
  | .lookup _ => Option Validity
  | .store _ _ => Unit
  | .getMailBackend _ _ => Except Err MailBackend
  | .getClusterMailBackend _ => Except Err ClusterMailBackend
  | .getSecret _ _ => Except ReadError Secret
  | .newDriver _ => Except Err Driver
  | .allow _ _ => Except Err Sigillum.Answer
  | .refund _ => Option Err
  | .send _ => Except Err SendResult
  | .sendRaw _ _ _ => Except Err SendResult
  | .close => Option Err
  | .record _ => Unit

/-- A part of the pipeline. -/
abbrev Pipeline := Prog Call Call.Answer

abbrev perform (c : Call) : Pipeline c.Answer := Prog.perform c

/-! ## The validity cache -/

/-- The objects whose validity is looked up. -/
inductive Object where
  | policy (p : MailPolicy)
  | mailBackend (mb : MailBackend)
  | clusterMailBackend (cmb : ClusterMailBackend)

namespace Object

def uid : Object → Bytes
  | .policy p => p.uid
  | .mailBackend mb => mb.uid
  | .clusterMailBackend cmb => cmb.uid

def generation : Object → Int
  | .policy p => p.generation
  | .mailBackend mb => mb.generation
  | .clusterMailBackend cmb => cmb.generation

/-- What `validate` returns for an object. -/
def validity (L : Libraries) : Object → Option InvalidObject
  | .policy p => validateMailPolicy L p
  | .mailBackend mb => mb.validateBackend L
  | .clusterMailBackend cmb => cmb.validateBackend L

/-- The kind, the name, the namespace and the spec of an object. -/
def withoutStatus : Object → Object
  | .policy p => .policy p
  | .mailBackend mb => .mailBackend { mb with status := ⟨[], []⟩ }
  | .clusterMailBackend cmb => .clusterMailBackend { cmb with status := ⟨[], []⟩ }

/-- An object read from the API server has a UID and a generation. -/
def Stored (o : Object) : Prop := o.uid ≠ [] ∧ o.generation ≠ 0

end Object

/-- `validityCache`: what is known of objects, by UID. -/
abbrev ValidityCache := AList fun _ : Bytes => Validity

def maxValidityEntries : Nat := 4096

/-- The second locked section of `check`; a full cache is emptied first. -/
def ValidityCache.store (m : ValidityCache) (uid : Bytes) (v : Validity) : ValidityCache :=
  (if maxValidityEntries ≤ m.entries.length then ∅ else m).insert uid v

section Pipeline
variable (L : Libraries)

/-- `validityCache.check`: what `validate` says, from the cache if it knows the generation. -/
def check (o : Object) : Pipeline (Option InvalidObject) :=
  if o.uid = [] ∨ o.generation = 0 then pure (o.validity L)
  else do
    let v ← perform (.lookup o.uid)
    match v.filter fun v => v.generation = o.generation with
    | some v => pure v.err
    | none => do
      perform (.store o.uid ⟨o.generation, o.validity L⟩)
      pure (o.validity L)

/-! ## Backends -/

/-- What `backendForPolicy` returns. -/
structure Backend where
  key : Bytes
  spec : BackendSpec
  status : BackendStatus
  secretNs : Bytes

/-- The backend `o` was read as, if it is valid and ready; `shown` is how errors name it. -/
def readyBackend (shown : Bytes) (o : Object) (backend : Backend) :
    Pipeline (Except Err Backend) := do
  match ← check L o with
  | some verr => pure (.error (.new (shown ++ lit " is invalid: " ++ L.invalidText verr)))
  | none =>
    if backendIsReady backend.status then pure (.ok backend)
    else pure (.error (.new (shown ++ lit " is not Ready")))

/-- `backendForPolicy`. -/
def backendForPolicy (p : MailPolicy) : Pipeline (Except Err Backend) :=
  let name := p.spec.backendRef.name
  match p.spec.backendRef.kind with
  | .mailBackend => do
    let shown := lit "MailBackend " ++ p.ns ++ lit "/" ++ name
    match ← perform (.getMailBackend p.ns name) with
    | .error err => pure (.error (err.wrap (shown ++ lit ": ")))
    | .ok mb =>
      readyBackend L shown (.mailBackend mb)
        ⟨p.ns ++ lit "/" ++ mb.name, mb.spec, mb.status, mb.ns⟩
  | .clusterMailBackend | .unset => do
    let shown := lit "ClusterMailBackend " ++ name
    match ← perform (.getClusterMailBackend name) with
    | .error err => pure (.error (err.wrap (shown ++ lit ": ")))
    | .ok cmb =>
      readyBackend L shown (.clusterMailBackend cmb)
        ⟨lit "/" ++ cmb.name, cmb.spec, cmb.status, []⟩
  | .other kind =>
    pure (.error (.new (lit "unsupported backendRef.kind " ++ quote L.unicode kind)))

/-! ## Opening a driver -/

/-- `backendSecret`: a namespaced backend reads Secrets of its own namespace only. -/
def backendSecret (refPath what name refNs fallbackNs : Bytes) : Pipeline (Except Err Secret) :=
  if fallbackNs ≠ [] ∧ refNs ≠ [] ∧ refNs ≠ fallbackNs then
    pure (.error (.new (refPath ++ lit ".namespace " ++ quote L.unicode refNs ++
      lit " must be empty or the backend's own namespace " ++ quote L.unicode fallbackNs)))
  else
    let ns := if fallbackNs ≠ [] then fallbackNs else refNs
    if ns = [] then
      pure (.error (.new (refPath ++ lit ".namespace must be set on cluster-scoped backends")))
    else do
      let shown := what ++ lit " secret " ++ ns ++ lit "/" ++ name
      match ← perform (.getSecret ns name) with
      | .ok sec => pure (.ok sec)
      | .error .notFound => pure (.error (.new (shown ++ lit " not found")))
      | .error (.secretNamespace err) => pure (.error err)
      | .error (.other err) => pure (.error (err.wrap (lit "failed to load " ++ shown ++ lit ": ")))

/-- `credentialsSecret`. -/
def credentialsSecret (field : Bytes) (ref : SecretReference) (fallbackNs : Bytes) :
    Pipeline (Except Err Secret) :=
  backendSecret L (field ++ lit ".credentialsRef") (lit "credentials") ref.name ref.ns fallbackNs

/-- `caPool`: the certificates trusted besides the system's. -/
def caPool (ref : CASecretReference) (fallbackNs : Bytes) : Pipeline (Except Err Bytes) := do
  match ← backendSecret L (lit "spec.smtp.caSecretRef") (lit "CA") ref.name ref.ns fallbackNs with
  | .error err => pure (.error err)
  | .ok sec =>
    let key := if ref.key = [] then lit "ca.crt" else ref.key
    let shown := lit "CA secret " ++ sec.ns ++ lit "/" ++ sec.name
    match sec.data.lookup key with
    | none => pure (.error (.new (shown ++ lit " has no key " ++ key)))
    | some pem =>
      if L.appendCertsFromPEM pem then pure (.ok pem)
      else pure (.error (.new (shown ++ lit ": key " ++ key ++ lit " holds no PEM certificate")))

/-- The user name and password of an SMTP backend; empty without authentication. -/
def smtpCredentials (smtp : SMTPBackendSpec) (authType : AuthType) (fallbackNs : Bytes) :
    Pipeline (Except Err (Bytes × Bytes)) :=
  if authType = .none then pure (.ok ([], []))
  else match smtp.credentialsRef with
  | none =>
    pure (.error (.new (lit "spec.smtp.credentialsRef is required when authType != NONE")))
  | some ref => do
    match ← credentialsSecret L (lit "spec.smtp") ref fallbackNs with
    | .error err => pure (.error err)
    | .ok sec => pure (.ok ((sec.data.lookup (lit "username")).getD [],
        (sec.data.lookup (lit "password")).getD []))

/-- The certificates an SMTP backend trusts besides the system's, if it names any. -/
def smtpRootCAs (smtp : SMTPBackendSpec) (fallbackNs : Bytes) :
    Pipeline (Except Err (Option Bytes)) :=
  match smtp.caSecretRef with
  | none => pure (.ok none)
  | some ref => do
    match ← caPool L ref fallbackNs with
    | .error err => pure (.error err)
    | .ok pem => pure (.ok (some pem))

/-- `ResolveBackendConfig` for `type: smtp`. -/
def resolveSMTP (backend : Backend) (smtp : SMTPBackendSpec) : Pipeline (Except Err Config) := do
  let authType := if smtp.authType = .unset then .none else smtp.authType
  match ← smtpCredentials L smtp authType backend.secretNs with
  | .error err => pure (.error err)
  | .ok (username, password) =>
    match ← smtpRootCAs L smtp backend.secretNs with
    | .error err => pure (.error err)
    | .ok rootCAs =>
      let cfg : SMTPConfig :=
        { endpoints := smtp.endpoints.map fun ep =>
            { ep with tls := if ep.tls = .unset then .startTLS else ep.tls }
          authType := authType
          username := username
          password := password
          timeout := smtp.connectionTimeoutSeconds
          helo := smtp.heloDomain
          rootCAs := rootCAs }
      pure (.ok ⟨.smtp, backend.key, some cfg, none⟩)

/-- `ResolveBackendConfig` for `type: microsoftGraph`. -/
def resolveGraph (backend : Backend) (g : MicrosoftGraphBackendSpec) :
    Pipeline (Except Err Config) := do
  match ← credentialsSecret L (lit "spec.microsoftGraph") g.credentialsRef backend.secretNs with
  | .error err => pure (.error err)
  | .ok sec =>
    let secret := (sec.data.lookup (lit "client_secret")).getD []
    if secret = [] then
      pure (.error (.new (lit "credentials secret " ++ sec.ns ++ lit "/" ++ sec.name ++
        lit " has no key client_secret")))
    else pure (.ok ⟨.microsoftGraph, backend.key, none, some ⟨g.tenantID, g.clientID, secret⟩⟩)

/-- `ResolveBackendConfig`. -/
def resolveBackendConfig (backend : Backend) : Pipeline (Except Err Config) :=
  match backend.spec.type with
  | .smtp =>
    match backend.spec.smtp with
    | none => pure (.error (.new (lit "spec.smtp is required when type=smtp")))
    | some smtp => resolveSMTP L backend smtp
  | .microsoftGraph =>
    match backend.spec.microsoftGraph with
    | none => pure (.error (.new (lit "spec.microsoftGraph is required when type=microsoftGraph")))
    | some g => resolveGraph L backend g
  | type => pure (.error (.new
      (lit "backend type " ++ quote L.unicode type.text ++ lit " is not implemented")))

/-- `openDriver`. -/
def openDriver (backend : Backend) : Pipeline (Except Err Driver) := do
  match ← resolveBackendConfig L backend with
  | .error err => pure (.error err)
  | .ok cfg => perform (.newDriver { cfg with
      smtp := cfg.smtp.map fun smtp => { smtp with
        endpoints := preferReadyEndpoints smtp.endpoints backend.status.endpointStatus } })

/-! ## `Send` -/

/-- The limits of a policy. -/
def limitsOf (p : MailPolicy) : Limits :=
  match p.spec.rateLimits with
  | some rl => ⟨rl.messagesPerMinute, rl.messagesPerHour, rl.messagesPerDay⟩
  | none => ⟨0, 0, 0⟩

/-- The key a policy is charged under. -/
def limiterKey (p : MailPolicy) : Bytes := p.ns ++ lit "/" ++ p.name

/-- `nameOf`. -/
def nameOf (p : Option MailPolicy) : Bytes := (p.map (·.name)).getD []

section Stages
variable (req : Request)

/-- Record a refusal by the policy or, with a backend, by the backend. -/
def deny (policy : Bytes) (reason : DenyReason) (detail backend : Bytes) : Pipeline Result := do
  perform (.record (req.event policy backend .reject reason.slug))
  pure { status := .denied, policy, backend, denyReason := some reason, detail }

/-- Record that the backend cannot be used; `backend` is its key once resolved. -/
def notReady (p : MailPolicy) (backend : Bytes) (err : Err) : Pipeline Result := do
  perform (.record (req.event p.name backend .reject (lit "backend_not_ready")))
  pure { status := .backendNotReady, policy := p.name, detail := err.text }

/-- The call of the driver, if it can relay what the request holds. -/
def transmit (d : Driver) (key : Bytes) : Pipeline (Except Err SendResult) :=
  match req.raw with
  | some raw =>
    if d.rawSender then perform (.sendRaw req.envelopeFrom req.view.recipients raw)
    else pure (.error
      { text := Sentinel.upstreamPermanent.text ++ lit ": backend " ++ key ++
          lit " cannot relay raw messages"
        is := [.upstreamPermanent]
        retryAfter := 0 })
  | none => perform (.send req.message)

/-- Give a charge back; a failure to do so is only logged. -/
def giveBack (p : MailPolicy) (charged : Bool) : Pipeline Unit :=
  if charged then do
    let _ ← perform (.refund (limiterKey p))
    pure ()
  else pure ()

/-- What follows from the driver's answer. -/
def conclude (p : MailPolicy) (key : Bytes) (charged : Bool) (outcome : Except Err SendResult) :
    Pipeline Result :=
  match outcome with
  | .error err =>
    if .recipientNotInEnvelope ∈ err.is then do
      giveBack p charged
      deny req p.name .recipientBlocked
        (trimStart (Sentinel.upstreamPermanent.text ++ lit ": ") err.text) key
    else do
      let permanent : Bool := .upstreamPermanent ∈ err.is
      let label := if permanent then lit "upstream_rejected" else lit "upstream_error"
      perform (.record (req.event p.name key .reject label))
      giveBack p (charged && !permanent)
      pure { status := .upstreamError, policy := p.name, backend := key, detail := err.text,
             permanent, retryAfter := if permanent then 0 else err.retryAfter }
  | .ok res => do
    perform (.record (req.event p.name key .accept []))
    pure { status := .accepted, policy := p.name, backend := key,
           upstreamID := res.upstreamID, acceptedAt := res.acceptedAt }

/-- The rate limit, if the policy caps a window, and the send. -/
def deliver (p : MailPolicy) (key : Bytes) (d : Driver) : Pipeline Result :=
  if (limitsOf p).isNone then do
    let outcome ← transmit req d key
    conclude req p key false outcome
  else do
    match ← perform (.allow (limiterKey p) (limitsOf p)) with
    | .error _ => do
      perform (.record (req.event p.name key .reject (lit "ratelimit_unavailable")))
      pure { status := .unavailable, policy := p.name,
             detail := lit "rate limiter unavailable; retry later" }
    | .ok answer =>
      if answer.ok then do
        let outcome ← transmit req d key
        conclude req p key true outcome
      else do
        perform (.record (req.event p.name key .reject (lit "rate_limited")))
        pure { status := .rateLimited, policy := p.name, retryAfter := answer.retryAfter,
               detail := lit "policy '" ++ p.name ++ lit "' rate limit exceeded" }

/-- What happens to a message the policy allows. -/
def dispatch (p : MailPolicy) : Pipeline Result := do
  match ← backendForPolicy L p with
  | .error err => notReady req p [] err
  | .ok backend =>
    match backend.spec.allowedSenders.bind (sendersAllowed L req.view) with
    | some sender =>
      deny req p.name .senderNotAllowed
        (lit "sender '" ++ sender ++ lit "' not in the backend's allowedSenders") backend.key
    | none =>
      match ← openDriver L backend with
      | .error err => notReady req p backend.key err
      | .ok d => do
        let res ← deliver req p backend.key d
        let _ ← perform .close
        pure res

/-- Evaluate the policy that matched, and go on if it allows the message. -/
def decideOn (matched : Option MailPolicy) : Pipeline Result :=
  match evaluate L matched req.view with
  | .denied p reason detail => deny req (nameOf p) reason detail []
  | .allowed p => dispatch L req p

/-- `serviceAccountLabels`; asked for only if a policy selects by them. -/
def serviceAccountLabels (policies : List MailPolicy) : Pipeline (Option (List (Bytes × Bytes))) :=
  if needsSALabels policies then do
    match ← perform (.getServiceAccount req.identity.ns req.identity.serviceAccount) with
    | .error _ => pure none
    | .ok labels => pure (some labels)
  else pure none

/-- `Gateway.Send`. -/
def send : Pipeline Result := do
  let policies ← perform (.listInNamespace req.identity.ns)
  let labels ← serviceAccountLabels req policies
  match policyMatch L policies (req.caller labels) with
  | none => decideOn L req none
  | some p =>
    match ← check L (.policy p) with
    | none => decideOn L req (some p)
    | some _ => do
      perform (.record (req.event p.name [] .reject (lit "policy_invalid")))
      pure { status := .policyInvalid, policy := p.name,
             detail := lit "MailPolicy " ++ quote L.unicode p.name ++
               lit " is invalid; its Ready condition names the problem" }

end Stages
end Pipeline

/-! ## Sends at once

Any number of sends run over one gateway.  They share its validity cache; what
the store, the reader, the limiter and the driver answer is left open, but for
the objects they return coming from `W`, those that exist at some time. -/

/-- UID and generation determine an object but for its status. -/
def Versioned (W : Object → Prop) : Prop :=
  ∀ a b, W a → W b → a.Stored → a.uid = b.uid → a.generation = b.generation →
    a.withoutStatus = b.withoutStatus

/-- How a call may be answered, and what becomes of the cache. -/
def answers (W : Object → Prop) (m : ValidityCache) : (c : Call) → c.Answer → ValidityCache → Prop
  | .lookup uid, v, m' => v = m.lookup uid ∧ m' = m
  | .store uid v, _, m' => m' = m.store uid v
  | .listInNamespace _, policies, m' => (∀ p ∈ policies, W (.policy p)) ∧ m' = m
  | .getMailBackend _ _, res, m' => (∀ mb, res = .ok mb → W (.mailBackend mb)) ∧ m' = m
  | .getClusterMailBackend _, res, m' =>
    (∀ cmb, res = .ok cmb → W (.clusterMailBackend cmb)) ∧ m' = m
  | _, _, m' => m' = m

/-- A gateway with its sends under way got here from an empty cache and no sends. -/
def Reachable (L : Libraries) (W : Object → Prop)
    (g : Pool ValidityCache Request Call Call.Answer Result) : Prop :=
  Pool.Reaches (answers W) (send L) ∅ g

end Gateway
end Sigillum
