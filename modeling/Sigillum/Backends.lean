import Sigillum.Admission

/-! # Backends

`api/v1alpha1/backend_common.go` and `internal/webhook/mailbackend_webhook.go`:
the two kinds of backend objects, which share their spec and status, and the
rules they must meet.
-/
namespace Sigillum
open Runes Bytes Sigillum.Field

/-! ## Objects -/

/-- `BackendType`, a string the API server restricts to the first four. -/
inductive BackendType where
  | smtp
  | microsoftGraph
  | sendgrid
  | gmail
  | other (name : Bytes)
  deriving DecidableEq, Repr

def BackendType.text : BackendType → Bytes
  | .smtp => lit "smtp"
  | .microsoftGraph => lit "microsoftGraph"
  | .sendgrid => lit "sendgrid"
  | .gmail => lit "gmail"
  | .other name => name

/-- `SMTPTLSMode`. -/
inductive TLSMode where
  | none
  | startTLS
  | implicit
  | unset
  | other (mode : Bytes)
  deriving DecidableEq, Repr

/-- `SMTPAuthType`. -/
inductive AuthType where
  | none
  | plain
  | login
  | cramMD5
  | unset
  | other (name : Bytes)
  deriving DecidableEq, Repr

def AuthType.text : AuthType → Bytes
  | .none => lit "NONE"
  | .plain => lit "PLAIN"
  | .login => lit "LOGIN"
  | .cramMD5 => lit "CRAM-MD5"
  | .unset => []
  | .other name => name

structure SMTPEndpoint where
  host : Bytes
  port : Int
  tls : TLSMode
  insecureSkipVerify : Bool
  deriving DecidableEq, Repr

structure SecretReference where
  name : Bytes
  ns : Bytes
  deriving DecidableEq, Repr

structure CASecretReference where
  name : Bytes
  ns : Bytes
  key : Bytes
  deriving DecidableEq, Repr

structure SMTPBackendSpec where
  endpoints : List SMTPEndpoint
  authType : AuthType
  credentialsRef : Option SecretReference
  connectionTimeoutSeconds : Int
  heloDomain : Bytes
  caSecretRef : Option CASecretReference
  deriving DecidableEq, Repr

structure MicrosoftGraphBackendSpec where
  tenantID : Bytes
  clientID : Bytes
  credentialsRef : SecretReference
  deriving DecidableEq, Repr

structure BackendSpec where
  type : BackendType
  smtp : Option SMTPBackendSpec
  microsoftGraph : Option MicrosoftGraphBackendSpec
  /-- `none` for a nil list, which bounds nothing; an empty list denies every sender. -/
  allowedSenders : Option (List Bytes)
  deriving DecidableEq, Repr

structure EndpointStatus where
  host : Bytes
  port : Int
  ready : Bool
  deriving DecidableEq, Repr

/-- `metav1.Condition`: its type and its status. -/
structure Condition where
  type : Bytes
  status : Bytes
  deriving DecidableEq, Repr

structure BackendStatus where
  endpointStatus : List EndpointStatus
  conditions : List Condition
  deriving DecidableEq, Repr

structure MailBackend where
  name : Bytes
  ns : Bytes
  uid : Bytes
  generation : Int
  spec : BackendSpec
  status : BackendStatus
  deriving DecidableEq, Repr

structure ClusterMailBackend where
  name : Bytes
  uid : Bytes
  generation : Int
  spec : BackendSpec
  status : BackendStatus
  deriving DecidableEq, Repr

/-- `backendIsReady`: the first condition of type `Ready` is `True`. -/
def backendIsReady (status : BackendStatus) : Bool :=
  match status.conditions.find? fun c => c.type == lit "Ready" with
  | some c => c.status == lit "True"
  | none => false

/-! ## Validation -/

/-- `driver.Implemented`: the types the gateway registers a driver for. -/
def implemented : List BackendType := [.smtp, .microsoftGraph]

/-- `driver.IsImplemented`. -/
def BackendType.isImplemented (t : BackendType) : Bool := implemented.contains t

/-- `kubecache.SecretNamespaceAllowed`. -/
def secretNamespaceAllowed (namespaces : List Bytes) (ns : Bytes) : Bool :=
  namespaces.length == 0 || namespaces.contains ns

/-- `MailBackendValidator`, for both kinds of backends. -/
structure MailBackendValidator where
  clusterScoped : Bool
  secretNamespaces : List Bytes

/-- `anyTLSEndpoint`. -/
def anyTLSEndpoint (eps : List SMTPEndpoint) : Bool := eps.any fun ep => ep.tls != .none

/-- The errors of one endpoint. -/
def validateEndpoint (path : Bytes) (ep : SMTPEndpoint) : List Field.Error :=
  (if ep.host = [] then [required (child path "host") (lit "host is required")] else []) ++
  (if ep.port = 0 then [required (child path "port") (lit "port is required")] else []) ++
  (if ep.insecureSkipVerify then
    [forbidden (child path "insecureSkipVerify")
      (lit "TLS certificate verification must not be disabled")] else [])

namespace MailBackendValidator

variable (L : Libraries) (v : MailBackendValidator)

/-- `validateCredentialsRef`. -/
def validateCredentialsRef (path : Bytes) (ref : SecretReference) (selfNs : Bytes) :
    List Field.Error :=
  if v.clusterScoped ∧ ref.ns = [] then
    [required (child path "namespace")
      (lit "namespace is required for Secret references on cluster-scoped backends")]
  else if ¬ v.clusterScoped ∧ ref.ns ≠ [] ∧ ref.ns ≠ selfNs then
    [invalid (child path "namespace") ref.ns
      (lit "cross-namespace Secret references are not permitted on namespace-scoped backends")]
  else []

/-- `secretNamespaceWarning`. -/
def secretNamespaceWarning (path refNs selfNs : Bytes) : List Bytes :=
  let ns := if v.clusterScoped then refNs else selfNs
  if ns = [] ∨ secretNamespaceAllowed v.secretNamespaces ns then []
  else
    [path ++ lit ": Sigillum reads Secrets only in " ++
      List.intercalate (lit ", ") v.secretNamespaces ++
      lit " (the release namespace and rbac.allowedSecretNamespaces), so this backend stays not Ready until the platform team adds " ++
      quote L.unicode ns ++ lit " to the chart value rbac.allowedSecretNamespaces"]

/-- The errors and warnings of `spec.smtp`. -/
def validateSMTP (path : Bytes) (smtp : SMTPBackendSpec) (selfNs : Bytes) :
    List Field.Error × List Bytes :=
  let authenticates := smtp.authType ≠ .unset ∧ smtp.authType ≠ .none
  let errors :=
    (if smtp.endpoints.length = 0 then
      [required (child path "endpoints") (lit "at least one endpoint is required")] else []) ++
    (smtp.endpoints.zipIdx.flatMap fun (ep, i) =>
      validateEndpoint (index (child path "endpoints") i) ep) ++
    (if authenticates ∧ smtp.credentialsRef = none then
      [required (child path "credentialsRef")
        (lit "credentialsRef is required when authType != NONE")] else []) ++
    (match smtp.credentialsRef with
      | some ref => v.validateCredentialsRef (child path "credentialsRef") ref selfNs
      | none => []) ++
    (match smtp.caSecretRef with
      | some ref => v.validateCredentialsRef (child path "caSecretRef") ⟨ref.name, ref.ns⟩ selfNs
      | none => [])
  let warnings :=
    (if authenticates then
      smtp.endpoints.zipIdx.flatMap fun (ep, i) =>
        if ep.tls = .none then
          [lit "spec.smtp.endpoints[" ++ lit (toString i) ++
            lit "] uses tls: none with authType " ++
            smtp.authType.text ++
            lit ": the relay password would go in cleartext, so sends to this endpoint are refused; use tls or starttls"]
        else []
    else []) ++
    (match smtp.credentialsRef with
      | some ref => v.secretNamespaceWarning L (child path "credentialsRef") ref.ns selfNs
      | none => []) ++
    (match smtp.caSecretRef with
      | some ref =>
        v.secretNamespaceWarning L (child path "caSecretRef") ref.ns selfNs ++
        (if anyTLSEndpoint smtp.endpoints then []
        else [lit "spec.smtp.caSecretRef has no effect: no endpoint uses tls or starttls"])
      | none => [])
  (errors, warnings)

/-- `validateGraph`. -/
def validateGraph (specPath : Bytes) (spec : BackendSpec) (selfNs : Bytes) : List Field.Error :=
  let path := child specPath "microsoftGraph"
  (match spec.microsoftGraph with
    | none => [required path (lit "spec.microsoftGraph is required when type=microsoftGraph")]
    | some g =>
      (if 0 < (L.isDNS1123Subdomain g.tenantID).length then
        [invalid (child path "tenantID") g.tenantID
          (lit "must be the directory (tenant) ID or a verified domain of the tenant, in lower case")]
      else []) ++
      (if L.isUUID g.clientID = false ∨ g.clientID.length ≠ 36 then
        [invalid (child path "clientID") g.clientID
          (lit "must be the application (client) ID of the app registration, a GUID")]
      else []) ++
      v.validateCredentialsRef (child path "credentialsRef") g.credentialsRef selfNs) ++
  (if (spec.allowedSenders.getD []).length = 0 then
    [required (child specPath "allowedSenders")
      (lit "a microsoftGraph backend can send as any mailbox of the tenant; list the mailboxes it sends for")]
  else []) ++
  (if spec.smtp.isSome then [forbidden (child specPath "smtp") (lit "only for type smtp")] else [])

/-- `MailBackendValidator.validate` on the parts of an object of either kind. -/
def validate (kind name selfNs : Bytes) (spec : BackendSpec) : List Bytes × Option InvalidObject :=
  let specPath := lit "spec"
  let smtpPath := child specPath "smtp"
  let smtp := match spec.smtp with
    | none => ([required smtpPath (lit "spec.smtp is required when type=smtp")], [])
    | some smtp => v.validateSMTP L smtpPath smtp selfNs
  let errors :=
    (if spec.type.isImplemented then []
    else [notSupported (child specPath "type") spec.type.text (implemented.map (·.text))]) ++
    (if spec.type = .smtp then
      smtp.1 ++ (if spec.microsoftGraph.isSome then
        [forbidden (child specPath "microsoftGraph") (lit "only for type microsoftGraph")] else [])
    else []) ++
    (if spec.type = .microsoftGraph then v.validateGraph L specPath spec selfNs else []) ++
    validateEntries (child specPath "allowedSenders") (addressEntryError L)
      (spec.allowedSenders.getD [])
  let warnings :=
    (if spec.type = .smtp then smtp.2 else []) ++
    (if spec.type = .microsoftGraph then
      match spec.microsoftGraph with
      | some g => v.secretNamespaceWarning L
          (child (child specPath "microsoftGraph") "credentialsRef") g.credentialsRef.ns selfNs
      | none => []
    else []) ++
    (if spec.allowedSenders = some [] then
      [lit "spec.allowedSenders is empty: this backend denies every sender. Omit the field to leave senders to the policies."]
    else [])
  (warnings, newInvalid kind name errors)

end MailBackendValidator

/-- `ValidateBackend` of a namespaced backend. -/
def MailBackend.validateBackend (L : Libraries) (mb : MailBackend) : Option InvalidObject :=
  (MailBackendValidator.validate L ⟨false, []⟩ (lit "MailBackend") mb.name mb.ns mb.spec).2

/-- `ValidateBackend` of a cluster-scoped one. -/
def ClusterMailBackend.validateBackend (L : Libraries) (cmb : ClusterMailBackend) :
    Option InvalidObject :=
  (MailBackendValidator.validate L ⟨true, []⟩ (lit "ClusterMailBackend") cmb.name [] cmb.spec).2

end Sigillum
