import Sigillum.Interaction
import Sigillum.Verifier

/-! # The credential controller

`MailCredentialReconciler.Reconcile` as a program over what it calls in the cluster:
the informer cache and the API server, the guard, and the writes of Secrets and of the
object's status.  `APIReader` is set, as it is where the controller is built.  Between
the calls stand the functions that compute the status, each on the status so far:
`prepare` up to the look for the ServiceAccount, `Outcome.apply` for a rotation and
`conclude` for the conditions.  Logs and metrics are left out.
-/
namespace Sigillum
open Runes Bytes Duration Interaction Credential

namespace Controller

/-! ## The API server -/

/-- What kind of error an API call ended with; `network` is one without an API status. -/
inductive APIErrorKind where
  | notFound
  | alreadyExists
  | invalid
  | conflict
  | serverTimeout
  | timeout
  | tooManyRequests
  | serviceUnavailable
  | internalError
  | unexpectedServerError
  | otherStatus
  | network
  deriving DecidableEq, Repr

structure APIError where
  kind : APIErrorKind
  text : Bytes
  deriving DecidableEq, Repr

/-- `transient`: whether a failed status write may succeed on retry. -/
def APIError.transient (e : APIError) : Bool :=
  match e.kind with
  | .network | .conflict | .serverTimeout | .timeout | .tooManyRequests | .serviceUnavailable
  | .internalError | .unexpectedServerError => true
  | .notFound | .alreadyExists | .invalid | .otherStatus => false

/-- `metav1.OwnerReference`. -/
structure OwnerReference where
  apiVersion : Bytes
  kind : Bytes
  name : Bytes
  uid : Bytes
  controller : Bool
  deriving DecidableEq, Repr

/-- `corev1.Secret`; maps are given by their entries. -/
structure SecretObject where
  name : Bytes
  ns : Bytes
  labels : List (Bytes × Bytes)
  annotations : List (Bytes × Bytes)
  ownerReferences : List OwnerReference
  type : Bytes
  data : List (Bytes × Bytes)
  deriving DecidableEq, Repr

/-- The JSON patch of a Secret: paths with the values they are tested for, and the data
that replaces `/data`. -/
structure SecretPatch where
  name : Bytes
  ns : Bytes
  tests : List (Bytes × Bytes)
  data : List (Bytes × Bytes)
  deriving DecidableEq, Repr

inductive Call where
  /-- `r.Get` of the object, from the informer cache. -/
  | get
  /-- `r.apiReader().Get` of the object. -/
  | apiGet
  | getServiceAccount (ns name : Bytes)
  /-- `r.Guard.OK`. -/
  | guardOK
  | generatePassword
  | createSecret (s : SecretObject)
  | patchSecret (p : SecretPatch)
  /-- `r.Status().Update`. -/
  | statusUpdate (mc : MailCredential)
  /-- Whether `ctx.Err()` is nil. -/
  | contextAlive
  deriving DecidableEq, Repr

abbrev Call.Answer : Call → Type
  | .get => Except APIError MailCredential
  | .apiGet => Except APIError MailCredential
  | .getServiceAccount _ _ => Option APIError
  | .guardOK => Bool × Bytes
  | .generatePassword => Except Err Bytes
  | .createSecret _ => Option APIError
  | .patchSecret _ => Option APIError
  | .statusUpdate _ => Option APIError
  | .contextAlive => Bool

instance : (c : Call) → DecidableEq c.Answer
  | .get | .apiGet => inferInstanceAs (DecidableEq (Except APIError MailCredential))
  | .getServiceAccount _ _ => inferInstanceAs (DecidableEq (Option APIError))
  | .guardOK => inferInstanceAs (DecidableEq (Bool × Bytes))
  | .generatePassword => inferInstanceAs (DecidableEq (Except Err Bytes))
  | .createSecret _ | .patchSecret _ | .statusUpdate _ =>
    inferInstanceAs (DecidableEq (Option APIError))
  | .contextAlive => inferInstanceAs (DecidableEq Bool)

abbrev perform (c : Call) : Prog Call Call.Answer c.Answer := Prog.perform c

/-- `MailCredentialReconciler`. -/
structure Reconciler where
  exclusions : Exclusions
  generatedEnabled : Bool
  smtpHost : Bytes
  smtpPort : Int
  deriving DecidableEq, Repr

variable (L : CredentialLibraries)

/-! ## When a password is due -/

/-- Why a password has to be written. -/
inductive Trigger where
  | initial
  | secretNameChanged
  | rotationRequested
  | intervalElapsed
  deriving DecidableEq, Repr

/-- `rotationDue`. -/
def rotationDue (mc : MailCredential) (now interval : Int) : Option Trigger :=
  match mc.status.current with
  | none => some .initial
  | some cur =>
    if mc.status.secretName ≠ mc.spec.secretName then some .secretNameChanged
    else if mc.annotation rotateAnnotation ≠ [] ∧
        mc.annotation rotateAnnotation ≠ mc.status.lastRotateRequest then some .rotationRequested
    else if 0 < interval ∧ cur.createdAt + interval ≤ now then some .intervalElapsed
    else none

/-- `rotationSettings`: interval and grace period, and the error. -/
def rotationSettings (rot : Option CredentialRotation) : (Int × Int) × Option Bytes :=
  match parseRotation L rot with
  | .ok settings => (settings, none)
  | .error errs => ((0, 0), some (joinErrors errs))

/-- `rotationLooksDue`. -/
def rotationLooksDue (mc : MailCredential) (now : Int) : Bool :=
  mc.generated && (rotationDue mc now (rotationSettings L mc.spec.rotation).1.1).isSome

/-- `minPositive`. -/
def minPositive (a b : Int) : Int :=
  if a ≤ 0 then b else if b ≤ 0 ∨ a < b then a else b

/-- `nextCredentialEvent`. -/
def nextCredentialEvent (st : MailCredentialStatus) (now interval : Int) : Int :=
  let next := match st.previous with
    | some prev => minPositive 0 (prev.validUntil - now + second)
    | none => 0
  match st.current with
  | some cur =>
    if 0 < interval then minPositive next (cur.createdAt + interval - now + second) else next
  | none => next

/-! ## The status -/

/-- A status in the making, with the message of its `Ready` condition; `verdict` is set
once that condition is decided. -/
structure Draft where
  status : MailCredentialStatus
  message : Bytes
  verdict : Option (ConditionStatus × CredentialReason)
  deriving DecidableEq, Repr

namespace Draft

/-- `fail`. -/
def fail (d : Draft) (reason : CredentialReason) (message : Bytes) : Draft :=
  { d with message := message, verdict := some (.false, reason) }

/-- What every reconcile sets. -/
def begin (mc : MailCredential) : Draft :=
  ⟨{ mc.status with
      username := username mc.name mc.ns
      observedGeneration := mc.generation }, [], none⟩

/-- The exclusion of the namespace. -/
def exclude (r : Reconciler) (mc : MailCredential) (d : Draft) : Draft :=
  if r.exclusions.excluded mc.ns then
    d.fail .namespaceExcluded (lit "namespace " ++ mc.ns ++ lit " may not hold mail credentials")
  else d

/-- Bring your own hash: nothing generated may linger, and the hash must be in order. -/
def ownHash (mc : MailCredential) (d : Draft) : Draft :=
  if d.verdict.isSome ∨ mc.generated then d
  else
    let d := { d with status := { d.status with secretName := [], current := none,
                                                previous := none } }
    match parseArgon2id L mc.spec.passwordHash with
    | .error err => d.fail .invalidConfiguration (lit "spec.passwordHash: " ++ err)
    | .ok _ =>
      if mc.spec.secretName ≠ [] ∨ mc.spec.rotation.isSome then
        d.fail .invalidConfiguration
          (lit "spec.passwordHash cannot be combined with spec.secretName or spec.rotation")
      else d

/-- Generated mode: the settings must be in order, and a hash of the user's own is
dropped. -/
def settings (mc : MailCredential) (d : Draft) : Draft :=
  if d.verdict.isSome ∨ mc.generated = false then d
  else
    let d :=
      if mc.spec.secretName = [] then d.fail .invalidConfiguration (lit
        "set spec.secretName (generated mode) or spec.passwordHash (bring your own hash)")
      else if generatedNameError L mc.name ≠ [] then
        d.fail .invalidConfiguration (generatedNameError L mc.name)
      else match (rotationSettings L mc.spec.rotation).2 with
        | some err => d.fail .invalidConfiguration err
        | none => d
    if d.status.current.any fun cur => !isGeneratedHash cur.hash then
      { d with status := { d.status with current := none, previous := none } }
    else d

end Draft

/-- The status up to the look for the ServiceAccount. -/
def prepare (r : Reconciler) (mc : MailCredential) : Draft :=
  (((Draft.begin mc).exclude r mc).ownHash L mc).settings L mc

namespace Draft

/-- The ServiceAccount does not exist. -/
def noServiceAccount (mc : MailCredential) (d : Draft) : Draft :=
  d.fail .serviceAccountNotFound (lit "ServiceAccount " ++ mc.ns ++ lit "/" ++
    mc.spec.serviceAccountName ++ lit " not found")

/-- When a hash of the user's own was accepted; one accepted before keeps its time. -/
def acceptedAt (mc : MailCredential) (now : Int) : Int :=
  match mc.status.current with
  | some accepted => if accepted.hash = mc.spec.passwordHash then accepted.createdAt else now
  | none => now

/-- A hash of the user's own is accepted. -/
def acceptOwnHash (mc : MailCredential) (now : Int) (d : Draft) : Draft :=
  if d.verdict.isSome ∨ mc.generated then d
  else
    { status := { d.status with current := some ⟨mc.spec.passwordHash, acceptedAt mc now⟩ }
      message := lit "credential ready; password verified against spec.passwordHash"
      verdict := some (.true, .bringYourOwnHash) }

/-- A previous password whose time is over is dropped. -/
def expire (now : Int) (d : Draft) : Draft :=
  { d with status := { d.status with
      previous := d.status.previous.filter fun prev => now < prev.validUntil } }

/-- `keepOrFail`: a password issued earlier keeps the credential up. -/
def keepOrFail (d : Draft) (reason : CredentialReason) (msg : Bytes) : Draft :=
  if d.status.current.isSome ∧ d.status.secretName ≠ [] then
    { d with
      message := lit "password in Secret " ++ d.status.secretName ++
        lit " still valid, but rotation failed: " ++ msg }
  else d.fail reason msg

end Draft

/-! ## Secrets -/

/-- The data of a credential's Secret. -/
def secretData (r : Reconciler) (username password : Bytes) : List (Bytes × Bytes) :=
  [(lit "username", username), (lit "password", password), (lit "host", r.smtpHost),
    (lit "port", lit (toString r.smtpPort))]

/-- The Secret of a credential. -/
def credentialSecret (r : Reconciler) (mc : MailCredential) (username password : Bytes) :
    SecretObject where
  name := mc.spec.secretName
  ns := mc.ns
  labels := [(lit "sigillum.dev/credential", mc.name)]
  annotations := [(lit "sigillum.dev/credential-uid", mc.uid)]
  ownerReferences := [⟨lit "sigillum.dev/v1alpha1", lit "MailCredential", mc.name, mc.uid, true⟩]
  type := lit "Opaque"
  data := secretData r username password

/-- The patch of a Secret that exists. -/
def credentialPatch (r : Reconciler) (mc : MailCredential) (username password : Bytes) :
    SecretPatch where
  name := mc.spec.secretName
  ns := mc.ns
  tests := [(lit "/metadata/labels/sigillum.dev~1credential", mc.name),
    (lit "/metadata/annotations/sigillum.dev~1credential-uid", mc.uid)]
  data := secretData r username password

/-- What comes of writing the Secret. -/
inductive Written where
  | done
  | conflict
  | failed (err : APIError)
  deriving DecidableEq, Repr

/-- `writeSecret`. -/
def writeSecret (r : Reconciler) (mc : MailCredential) (username password : Bytes) :
    Prog Call Call.Answer Written := do
  match ← perform (.createSecret (credentialSecret r mc username password)) with
  | none => return .done
  | some err =>
    if err.kind ≠ .alreadyExists then return .failed err
    else match ← perform (.patchSecret (credentialPatch r mc username password)) with
      | none => return .done
      | some err => if err.kind = .invalid then return .conflict else return .failed err

/-! ## Rotation -/

/-- What comes of a rotation: it is not due, the guard forbids it, or the Secret was
written, with a password, or not. -/
inductive Outcome where
  | disabled
  | notDue
  | guardMissing (msg : Bytes)
  | written (password : Bytes)
  | conflict
  | failed (err : APIError)
  deriving DecidableEq, Repr

/-- What comes of a rotation that got as far as writing the Secret. -/
def Written.outcome (password : Bytes) : Written → Outcome
  | .done => .written password
  | .conflict => .conflict
  | .failed err => .failed err

/-- Rotate, if `why` says so. -/
def rotate (r : Reconciler) (mc : MailCredential) (username : Bytes) (why : Option Trigger) :
    Prog Call Call.Answer (Except Err Outcome) :=
  if r.generatedEnabled = false then return .ok .disabled
  else do
    let (guardOK, guardMsg) ← perform .guardOK
    if why = none then return .ok .notDue
    else if guardOK = false then return .ok (.guardMissing guardMsg)
    else match ← perform .generatePassword with
      | .error err => return .error err
      | .ok password => return .ok ((← writeSecret r mc username password).outcome password)

/-- The hash that is kept for the grace period. -/
def retire (st : MailCredentialStatus) (now grace : Int) : Option PreviousCredentialHash :=
  match st.current with
  | some cur => if 0 < grace then some ⟨cur.hash, now + grace⟩ else none
  | none => none

/-- What the conflict with a Secret of another owner is answered with. -/
def conflictMessage (mc : MailCredential) : Bytes :=
  lit "Secret " ++ mc.ns ++ lit "/" ++ mc.spec.secretName ++
    lit " exists and is not owned by this MailCredential (only a Secret with the label " ++
    lit "sigillum.dev/credential=" ++ mc.name ++ lit " and the annotation " ++
    lit "sigillum.dev/credential-uid=" ++ mc.uid ++
    lit " is updated); set spec.secretName to an unused name, or delete that Secret if " ++
    lit "nothing else uses it"

/-- The status a rotation comes to. -/
def Outcome.apply (mc : MailCredential) (now grace : Int) (d : Draft) : Outcome → Draft
  | .disabled => d.fail .generatedModeDisabled (lit ("generated credentials are disabled " ++
      "(chart credentials.enabled=false); use spec.passwordHash"))
  | .notDue => d
  | .guardMissing msg => d.keepOrFail .guardMissing msg
  | .written password =>
    { d with status := { d.status with
        previous := retire d.status now grace
        current := some ⟨hashGenerated L password, now⟩
        secretName := mc.spec.secretName
        lastRotateRequest := mc.annotation rotateAnnotation } }
  | .conflict => d.keepOrFail .secretConflict (conflictMessage mc)
  | .failed err => d.keepOrFail .secretWriteFailed err.text

/-- When to look again. -/
def Outcome.requeueAfter : Outcome → Int
  | .guardMissing _ => 5 * minute
  | .conflict => minute
  | _ => 0

/-- The error a reconcile returns for the rotation. -/
def Outcome.retErr : Outcome → Option Bytes
  | .failed err => some err.text
  | _ => none

/-- Where no problem was found, the credential is ready. -/
def Draft.settle (d : Draft) : Draft :=
  if d.verdict.isSome then d
  else { d with
    verdict := some (.true, .ready)
    message := if d.message = [] then
      lit "credential ready; password in Secret " ++ d.status.secretName else d.message }

/-! ## Conditions -/

/-- `setCondition`. -/
def setCondition (conds : List CredentialCondition) (new : CredentialCondition) :
    List CredentialCondition :=
  match conds with
  | [] => [new]
  | c :: rest =>
    if c.type = new.type then
      (if c.status = new.status then { new with lastTransitionTime := c.lastTransitionTime }
      else new) :: rest
    else c :: setCondition rest new

/-- `meta.RemoveStatusCondition`. -/
def removeStatusCondition (conds : List CredentialCondition) (type : ConditionType) :
    List CredentialCondition :=
  conds.filter fun c => c.type ≠ type

/-- The condition that reports the guard. -/
def managedCondition (mc : MailCredential) (now : Int) (guard : Bool × Bytes) :
    CredentialCondition :=
  if guard.1 then
    ⟨.secretsManaged, .true, mc.generation, now, .ready, lit "credential Secret guard verified"⟩
  else ⟨.secretsManaged, .false, mc.generation, now, .guardMissing, guard.2⟩

/-- The conditions with the guard's verdict, where it is reported. -/
def guardConditions (mc : MailCredential) (now : Int) (conds : List CredentialCondition) :
    Option (Bool × Bytes) → List CredentialCondition
  | some guard => setCondition conds (managedCondition mc now guard)
  | none => removeStatusCondition conds .secretsManaged

/-- The condition that reports how the credential is; the verdict is there by then. -/
def readyCondition (mc : MailCredential) (now : Int) (d : Draft) : CredentialCondition :=
  let (ready, reason) := d.verdict.getD (.false, .ready)
  ⟨.ready, ready, mc.generation, now, reason, d.message⟩

/-- The status with its conditions. -/
def conclude (mc : MailCredential) (now : Int) (guard : Option (Bool × Bytes)) (d : Draft) :
    MailCredentialStatus :=
  { d.status with
    serviceAccountName := if (readyCondition mc now d).status = .true then
      mc.spec.serviceAccountName else d.status.serviceAccountName
    conditions := setCondition (guardConditions mc now d.status.conditions guard)
      (readyCondition mc now d) }

/-! ## Writing the status -/

/-- One attempt to write the status onto the latest object. -/
def retryUpdate (mc : MailCredential) : Prog Call Call.Answer (Option APIError) := do
  match ← perform .apiGet with
  | .error err => return if err.kind = .notFound then none else some err
  | .ok latest =>
    if latest.uid ≠ mc.uid then return none
    else perform (.statusUpdate { latest with status := mc.status })

/-- `retry.OnError` with `steps + 1` attempts. -/
def retryOnError (mc : MailCredential) : Nat → Prog Call Call.Answer (Option APIError)
  | 0 => do
    match ← retryUpdate mc with
    | none => return none
    | some err =>
      let _ ← perform .contextAlive
      return some err
  | steps + 1 => do
    match ← retryUpdate mc with
    | none => return none
    | some err =>
      if (← perform .contextAlive) && err.transient then retryOnError mc steps
      else return some err

/-- `updateStatus`; `statusRetryBackoff` has six steps. -/
def updateStatus (mc : MailCredential) (secretWritten : Bool) :
    Prog Call Call.Answer (Option APIError) := do
  match ← perform (.statusUpdate mc) with
  | none => return none
  | some err => if secretWritten then retryOnError mc 5 else return some err

/-- An unchanged status is not written again. -/
def updateChanged (mc : MailCredential) (status : MailCredentialStatus) (secretWritten : Bool) :
    Prog Call Call.Answer (Option APIError) :=
  if status ≠ mc.status ∨ secretWritten then
    updateStatus { mc with status := status } secretWritten
  else return none

/-! ## Reconcile -/

/-- The guard's verdict, for a generated credential. -/
def guardVerdict (r : Reconciler) (mc : MailCredential) :
    Prog Call Call.Answer (Option (Bool × Bytes)) :=
  if mc.generated && r.generatedEnabled then do return some (← perform .guardOK)
  else return none

/-- The end of `Reconcile`: conditions, and the status if it changed. -/
def finish (r : Reconciler) (mc : MailCredential) (now : Int) (d : Draft)
    (secretWritten : Bool) (retErr : Option Bytes) (requeueAfter : Int) :
    Prog Call Call.Answer (Except Bytes Int) := do
  let guard ← guardVerdict r mc
  match ← updateChanged mc (conclude mc now guard d) secretWritten, retErr with
  | some err, _ => return .error err.text
  | none, some err => return .error err
  | none, none => return .ok requeueAfter

/-- Generated mode, with settings that are in order and a ServiceAccount that exists. -/
def reconcileGenerated (r : Reconciler) (mc : MailCredential) (now : Int) (d : Draft) :
    Prog Call Call.Answer (Except Bytes Int) := do
  let (interval, grace) := (rotationSettings L mc.spec.rotation).1
  let d := d.expire now
  match ← rotate r mc d.status.username
      (rotationDue { mc with status := d.status } now interval) with
  | .error err => return .error err.text
  | .ok outcome =>
    let d := (outcome.apply L mc now grace d).settle
    finish r mc now d (outcome matches .written _) outcome.retErr
      (minPositive outcome.requeueAfter (nextCredentialEvent d.status now interval))

/-- `Reconcile`, on the object it decides on. -/
def reconcileObject (r : Reconciler) (mc : MailCredential) (now : Int) :
    Prog Call Call.Answer (Except Bytes Int) := do
  let d := prepare L r mc
  if d.verdict.isSome then finish r mc now d false none 0
  else match ← perform (.getServiceAccount mc.ns mc.spec.serviceAccountName) with
    | some err =>
      if err.kind = .notFound then finish r mc now (d.noServiceAccount mc) false none 0
      else return .error err.text
    | none =>
      if mc.generated then reconcileGenerated L r mc now d
      else finish r mc now (d.acceptOwnHash mc now) false none 0

/-- What `Reconcile` returns when the object cannot be read. -/
def ignoreNotFound (err : APIError) : Except Bytes Int :=
  if err.kind = .notFound then .ok 0 else .error err.text

/-- `Reconcile`: a cached object whose password looks due is read afresh. -/
def reconcile (r : Reconciler) (now : Int) : Prog Call Call.Answer (Except Bytes Int) := do
  match ← perform .get with
  | .error err => return ignoreNotFound err
  | .ok cached =>
    if rotationLooksDue L cached now then
      match ← perform .apiGet with
      | .error err => return ignoreNotFound err
      | .ok fresh => reconcileObject L r fresh now
    else reconcileObject L r cached now

end Controller
end Sigillum
