import Sigillum.CELText
import Sigillum.TokenBroker

/-! # The guard of the credential Secrets

`Guard.Policy`: the admission policy that keeps the controller to two shapes of Secret,
the generated Secret of a `MailCredential` and the token Secret of a delegated backend.
Its expressions are given by their text, as the cluster gets it.  `Guard.Passes` is what
an API server makes of the policy: it reads each text, computes the variables one after
another, and asks every validation.

The policy is about creates and updates of Secrets by the controller, and so are the
requests here; the match condition that says so is not evaluated.
-/
namespace Sigillum
open Runes Bytes CEL Credential

/-- `credential.Guard`. -/
structure Guard where
  name : Bytes
  controllerUsername : Bytes
  exclusions : Exclusions
  deriving DecidableEq, Repr

namespace Guard
open Controller Broker

/-! ## Expressions -/

def credentialLabel : Bytes := lit "sigillum.dev/credential"
def credentialUIDAnnotation : Bytes := lit "sigillum.dev/credential-uid"

/-- The value of a label or an annotation, empty where there is none. -/
def markerText (field key : Bytes) : Bytes :=
  lit "has(object.metadata." ++ field ++ lit ") && '" ++ key ++ lit "' in object.metadata." ++
    field ++ lit " ? object.metadata." ++ field ++ lit "['" ++ key ++ lit "'] : ''"

def celCredentialVar : Bytes := markerText (lit "labels") credentialLabel
def celUIDVar : Bytes := markerText (lit "annotations") credentialUIDAnnotation
def celOAuthBackendVar : Bytes := markerText (lit "labels") tokenLabel
def celOAuthUIDVar : Bytes := markerText (lit "annotations") tokenUIDAnnotation

def celIsCredentialVar : Bytes :=
  lit "variables.credential != '' && variables.uid != '' && " ++
  lit "variables.oauthBackend == '' && variables.oauthUID == ''"

def celIsOAuthVar : Bytes :=
  lit "variables.oauthBackend != '' && variables.oauthUID != '' && " ++
  lit "variables.credential == '' && variables.uid == ''"

def celLabelled : Bytes := lit "variables.isCredential || variables.isOAuth"

def celOwned : Bytes :=
  lit "has(object.metadata.ownerReferences) && object.metadata.ownerReferences.exists(r," ++
  lit " r.apiVersion.startsWith('sigillum.dev/') && has(r.controller) && r.controller && " ++
  lit "(variables.isCredential" ++
  lit " ? r.kind == 'MailCredential' && r.name == variables.credential && r.uid == variables.uid" ++
  lit " : (r.kind == 'MailBackend' || r.kind == 'ClusterMailBackend') && " ++
  lit "r.name == variables.oauthBackend && r.uid == variables.oauthUID))"

/-- The object that is updated carries a label and an annotation with these values. -/
def sameOwnerText (label annotation name uid : Bytes) : Bytes :=
  lit "has(oldObject.metadata.labels) && '" ++ label ++ lit "' in oldObject.metadata.labels &&" ++
  lit " oldObject.metadata.labels['" ++ label ++ lit "'] == variables." ++ name ++ lit " &&" ++
  lit " has(oldObject.metadata.annotations) && '" ++ annotation ++
  lit "' in oldObject.metadata.annotations &&" ++
  lit " oldObject.metadata.annotations['" ++ annotation ++ lit "'] == variables." ++ uid

def celSameOwner : Bytes :=
  lit "request.operation != 'UPDATE' || (variables.isCredential ? (" ++
  sameOwnerText credentialLabel credentialUIDAnnotation (lit "credential") (lit "uid") ++
  lit ") : (" ++
  sameOwnerText tokenLabel tokenUIDAnnotation (lit "oauthBackend") (lit "oauthUID") ++ lit "))"

def celOpaque : Bytes := lit "has(object.type) && object.type == 'Opaque'"

def celDataKeys : Bytes :=
  lit "!has(object.data) || object.data.all(k, variables.isCredential" ++
  lit " ? k in ['username', 'password', 'host', 'port']" ++
  lit " : k in ['refresh_token', 'access_token', 'expires_at'])"

def celNamespace : Bytes :=
  lit "variables.isOAuth && request.namespace == variables.releaseNamespace ||" ++
  lit " request.namespace != variables.releaseNamespace &&" ++
  lit " !(request.namespace in variables.excludedNames) &&" ++
  lit " !variables.excludedPrefixes.exists(p, request.namespace.startsWith(p))"

/-! ## The policy -/

/-- `Exclusions.split`: the exact names, and the prefixes without their `*`. -/
def split (e : Exclusions) : List Bytes × List Bytes :=
  (e.patterns.filter fun p => p.getLast? ≠ some 42,
    (e.patterns.filter fun p => p.getLast? = some 42).map List.dropLast)

/-- `admv1.ValidatingAdmissionPolicy`: names with expressions, and expressions with
messages. -/
structure Policy where
  name : Bytes
  matchConditions : List (Bytes × Bytes)
  vars : List (Bytes × Bytes)
  validations : List (Bytes × Bytes)
  deriving DecidableEq, Repr

/-- `Guard.Policy`. -/
def policy (g : Guard) : Policy where
  name := g.name
  matchConditions :=
    [(lit "controller-only",
      lit "request.userInfo.username == " ++ jsonString g.controllerUsername)]
  vars :=
    [(lit "releaseNamespace", jsonString g.exclusions.releaseNamespace),
      (lit "excludedNames", jsonStrings (split g.exclusions).1),
      (lit "excludedPrefixes", jsonStrings (split g.exclusions).2),
      (lit "credential", celCredentialVar),
      (lit "uid", celUIDVar),
      (lit "oauthBackend", celOAuthBackendVar),
      (lit "oauthUID", celOAuthUIDVar),
      (lit "isCredential", celIsCredentialVar),
      (lit "isOAuth", celIsOAuthVar)]
  validations :=
    [(celLabelled, lit "the Sigillum controller may only write Secrets labelled " ++
        credentialLabel ++ lit " and annotated " ++ credentialUIDAnnotation ++
        lit ", or labelled " ++ tokenLabel ++ lit " and annotated " ++ tokenUIDAnnotation),
      (celOwned, lit "the Secret must be controlled by the MailCredential named in its " ++
        credentialLabel ++ lit " label, or by the backend named in its " ++ tokenLabel ++
        lit " label"),
      (celSameOwner, lit "the Sigillum controller may only update Secrets that already " ++
        lit "belong to the same MailCredential or backend"),
      (celOpaque, lit "the Sigillum controller may only write Secrets of type Opaque"),
      (celDataKeys, lit "the Sigillum controller may only write the keys username, password, " ++
        lit "host and port (credential Secrets) or refresh_token, access_token and expires_at " ++
        lit "(OAuth token Secrets)"),
      (celNamespace, lit "this namespace is excluded from generated mail credentials")]

/-! ## Requests -/

/-- A create, or an update of an object that is there. -/
inductive Operation where
  | create
  | update (old : SecretObject)
  deriving DecidableEq, Repr

def Operation.text : Operation → Bytes
  | .create => lit "CREATE"
  | .update _ => lit "UPDATE"

/-- A request to write a Secret. -/
structure AdmissionRequest where
  operation : Operation
  ns : Bytes
  object : SecretObject
  deriving DecidableEq, Repr

/-- The fields that are present. -/
def present (fields : List (Bytes × Option Value)) : Value :=
  .map (fields.filterMap fun f => f.2.map fun v => (f.1, v))

/-- A map of strings, which is absent where it is empty. -/
def stringMap (entries : List (Bytes × Bytes)) : Option Value :=
  if entries = [] then none else some (.map (entries.map fun e => (e.1, .string e.2)))

def ownerFields (r : OwnerReference) : List (Bytes × Option Value) :=
  [(lit "apiVersion", some (.string r.apiVersion)), (lit "kind", some (.string r.kind)),
    (lit "name", some (.string r.name)), (lit "uid", some (.string r.uid)),
    (lit "controller", if r.controller then some (.bool true) else none)]

def metadataFields (s : SecretObject) : List (Bytes × Option Value) :=
  [(lit "name", some (.string s.name)), (lit "namespace", some (.string s.ns)),
    (lit "labels", stringMap s.labels), (lit "annotations", stringMap s.annotations),
    (lit "ownerReferences", if s.ownerReferences = [] then none
      else some (.list (s.ownerReferences.map fun r => present (ownerFields r))))]

def secretFields (s : SecretObject) : List (Bytes × Option Value) :=
  [(lit "metadata", some (present (metadataFields s))),
    (lit "type", if s.type = [] then none else some (.string s.type)),
    (lit "data", if s.data = [] then none
      else some (.map (s.data.map fun e => (e.1, .bytes e.2))))]

/-- A Secret as an expression sees it: what is empty is absent. -/
def secretValue (s : SecretObject) : Value := present (secretFields s)

def Operation.oldValue : Operation → Value
  | .create => .null
  | .update old => secretValue old

def requestValue (req : AdmissionRequest) : Value :=
  .map [(lit "operation", .string req.operation.text), (lit "namespace", .string req.ns)]

/-- What an expression can name. -/
def guardEnv (req : AdmissionRequest) (fields : List (Bytes × CEL.Result)) : Env :=
  [(lit "object", .value (secretValue req.object)),
    (lit "oldObject", .value req.operation.oldValue), (lit "request", .value (requestValue req)),
    (lit "variables", .record fields)]

/-- The variables of a policy, the last one first; each sees those before it. -/
def computed (req : AdmissionRequest) (vars : List (Bytes × Bytes)) :
    List (Bytes × CEL.Result) :=
  vars.foldl (fun fields v => (v.1, evalText v.2 (guardEnv req fields)) :: fields) []

/-- What the expressions of the guard are evaluated with. -/
def env (g : Guard) (req : AdmissionRequest) : Env :=
  guardEnv req (computed req g.policy.vars)

/-- The text is true of a request. -/
def Satisfies (g : Guard) (req : AdmissionRequest) (text : Bytes) : Prop :=
  evalText text (g.env req) = .ok (.bool true)

/-- Every validation of the policy is true of a request. -/
def Passes (g : Guard) (req : AdmissionRequest) : Prop :=
  ∀ v ∈ g.policy.validations, g.Satisfies req v.1

end Guard
end Sigillum
