import Sigillum.Admission
import Sigillum.Cache
import Sigillum.MemoryLimiter
import Sigillum.TextCodecs

/-! # Mail credentials

`MailCredential` objects, and `internal/credential` as the controller, the webhook
and the SMTP proxy use it: user names, the two kinds of password hash, rotation
settings, excluded namespaces.  The webhook's checks of an object are at the end.

Times are in nanoseconds since 1970.  SHA-256 and argon2id are any functions;
`time.ParseDuration` and the name checks of apimachinery likewise.
-/
namespace Sigillum
open Runes Bytes Duration TextCodecs

/-! ## Objects -/

/-- `CredentialRotation`. -/
structure CredentialRotation where
  interval : Bytes
  gracePeriod : Bytes
  deriving DecidableEq, Repr

structure MailCredentialSpec where
  serviceAccountName : Bytes
  secretName : Bytes
  rotation : Option CredentialRotation
  passwordHash : Bytes
  deriving DecidableEq, Repr

structure CredentialHash where
  hash : Bytes
  createdAt : Int
  deriving DecidableEq, Repr

structure PreviousCredentialHash where
  hash : Bytes
  validUntil : Int
  deriving DecidableEq, Repr

inductive ConditionType where
  | ready
  | secretsManaged
  | other (name : Bytes)
  deriving DecidableEq, Repr

/-- `metav1.ConditionStatus`. -/
inductive ConditionStatus where
  | true
  | false
  | unknown
  deriving DecidableEq, Repr

/-- The reasons of a credential's conditions. -/
inductive CredentialReason where
  | ready
  | invalidConfiguration
  | serviceAccountNotFound
  | namespaceExcluded
  | secretConflict
  | secretWriteFailed
  | guardMissing
  | generatedModeDisabled
  | bringYourOwnHash
  deriving DecidableEq, Repr

/-- `metav1.Condition`, in full. -/
structure CredentialCondition where
  type : ConditionType
  status : ConditionStatus
  observedGeneration : Int
  lastTransitionTime : Int
  reason : CredentialReason
  message : Bytes
  deriving DecidableEq, Repr

structure MailCredentialStatus where
  username : Bytes
  secretName : Bytes
  serviceAccountName : Bytes
  current : Option CredentialHash
  previous : Option PreviousCredentialHash
  lastRotateRequest : Bytes
  conditions : List CredentialCondition
  observedGeneration : Int
  deriving DecidableEq, Repr

/-- The status of a new object. -/
def MailCredentialStatus.empty : MailCredentialStatus := ⟨[], [], [], none, none, [], [], 0⟩

/-- `MailCredential`.  The map of annotations is given by its entries. -/
structure MailCredential where
  name : Bytes
  ns : Bytes
  uid : Bytes
  resourceVersion : Nat
  generation : Int
  annotations : List (Bytes × Bytes)
  spec : MailCredentialSpec
  status : MailCredentialStatus
  deriving DecidableEq, Repr

/-- `Generated`. -/
def MailCredential.generated (mc : MailCredential) : Bool := mc.spec.passwordHash == []

/-- `mc.Annotations[key]`. -/
def MailCredential.annotation (mc : MailCredential) (key : Bytes) : Bytes :=
  (mc.annotations.lookup key).getD []

def rotateAnnotation : Bytes := lit "sigillum.dev/rotate"

/-! ## The parameter -/

structure CredentialLibraries extends Libraries where
  /-- `sha256.Sum256`. -/
  sha256 : Bytes → { sum : Bytes // sum.length = 32 }
  /-- `argon2.IDKey` of a password, salt, time, memory, threads and key length. -/
  idKey : Bytes → Bytes → Nat → Nat → Nat → Nat → Bytes
  /-- `time.ParseDuration`, in nanoseconds. -/
  parseDuration : Bytes → Option Int
  /-- `validation.IsValidLabelValue`: what is wrong with a label value. -/
  isValidLabelValue : Bytes → List Bytes
  /-- The `lru.Cache` of `Verifier`. -/
  argonOK : Cache 1024 { sum : Bytes // sum.length = 32 } Int

/-- Small stand-ins: a hash that keeps the first bytes, a key that is the password, and
durations in whole hours. -/
def CredentialLibraries.plain : CredentialLibraries where
  toLibraries := .plain
  sha256 s := ⟨(s ++ List.replicate 32 0).take 32, by simp⟩
  idKey password _ _ _ _ keyLen := (password ++ List.replicate keyLen 0).take keyLen
  parseDuration s :=
    if s.getLast? = some 104 then (parseUint 16 s.dropLast).map fun n => n * hour else none
  isValidLabelValue s := if s.length ≤ 63 then [] else [lit "must be no more than 63 characters"]
  argonOK := .roomy

namespace Credential

/-! ## User names -/

/-- `Username`. -/
def username (name ns : Bytes) : Bytes := name ++ 46 :: ns

/-- `ParseUsername`: namespace and name. -/
def parseUsername (u : Bytes) : Option (Bytes × Bytes) :=
  match cutLast 46 u with
  | some (name, ns) => if name = [] ∨ ns = [] then none else some (ns, name)
  | none => none

theorem username_of_parseUsername {u ns name : Bytes} (h : parseUsername u = some (ns, name)) :
    u = username name ns := by
  unfold parseUsername at h
  split at h
  · rename_i name' ns' hcut
    split at h
    · cases h
    · obtain ⟨rfl, rfl⟩ := Prod.mk.inj (Option.some.inj h)
      exact (cutLast_eq_some hcut).1
  · cases h

variable (L : CredentialLibraries)

/-! ## Generated passwords -/

def sha256Prefix : Bytes := lit "sha256:"

/-- `HashGenerated`. -/
def hashGenerated (password : Bytes) : Bytes := sha256Prefix ++ hexEncode (L.sha256 password).val

/-- `IsGeneratedHash`. -/
def isGeneratedHash (hash : Bytes) : Bool := sha256Prefix.isPrefixOf hash

/-- `VerifyGenerated`. -/
def verifyGenerated (hash password : Bytes) : Bool :=
  if isGeneratedHash hash then
    match hexDecode (trimStart sha256Prefix hash) with
    | some want => want.length == 32 && want == (L.sha256 password).val
    | none => false
  else false

@[simp] theorem isGeneratedHash_hashGenerated (password : Bytes) :
    isGeneratedHash (hashGenerated L password) = true := by
  simp [isGeneratedHash, hashGenerated]

theorem isGeneratedHash_of_verifyGenerated {hash password : Bytes}
    (h : verifyGenerated L hash password = true) : isGeneratedHash hash = true := by
  unfold verifyGenerated at h
  split at h
  · assumption
  · cases h

/-- A hash that `HashGenerated` wrote is the hash of the passwords it verifies. -/
theorem verifyGenerated_hashGenerated (s password : Bytes) :
    verifyGenerated L (hashGenerated L s) password = true ↔
      hashGenerated L s = hashGenerated L password := by
  have htrim : trimStart sha256Prefix (hashGenerated L s) = hexEncode (L.sha256 s).val := by
    simp [trimStart, hashGenerated]
  have hlen := (L.sha256 s).property
  rw [verifyGenerated, if_pos (isGeneratedHash_hashGenerated L s), htrim, hexDecode_hexEncode]
  simp only [hlen, beq_self_eq_true, Bool.true_and, beq_iff_eq, hashGenerated,
    List.append_cancel_left_eq]
  constructor
  · exact fun h => congrArg hexEncode h
  · intro h
    have hdecode := congrArg hexDecode h
    simpa using hdecode

/-! ## Passwords of the user -/

def argon2MinMemoryKiB : Nat := 7 * 1024
def argon2MaxMemoryKiB : Nat := 64 * 1024
def argon2MinMemoryTimeKiB : Nat := 35 * 1024
def argon2MaxTime : Nat := 10
def argon2MaxThreads : Nat := 16
def argon2MinSaltLen : Nat := 8
def argon2MinKeyLen : Nat := 16
def argon2MaxKeyLen : Nat := 64

/-- `Argon2Params`. -/
structure Argon2Params where
  memoryKiB : Nat
  time : Nat
  threads : Nat
  salt : Bytes
  key : Bytes
  deriving DecidableEq, Repr

def num (n : Nat) : Bytes := lit (toString n)

/-- One `k=v` of the parameters `params`, with the keys seen before it; numbers are
converted to `uint32` and `uint8`. -/
def argon2Param (params : Bytes) (acc : List Bytes × Argon2Params) (kv : Bytes) :
    Except Bytes (List Bytes × Argon2Params) :=
  match cut 61 kv with
  | none => .error (lit "malformed argon2 parameters " ++ quote L.unicode params)
  | some (k, v) =>
    if k ∈ acc.1 then .error (lit "malformed argon2 parameters " ++ quote L.unicode params)
    else match parseUint 32 v with
    | none => .error (lit "malformed argon2 parameter " ++ quote L.unicode kv)
    | some n =>
      if k = lit "m" then .ok (k :: acc.1, { acc.2 with memoryKiB := n % 2 ^ 32 })
      else if k = lit "t" then .ok (k :: acc.1, { acc.2 with time := n % 2 ^ 32 })
      else if k = lit "p" then
        if 255 < n then .error (lit "argon2 parallelism " ++ num n ++ lit " out of range")
        else .ok (k :: acc.1, { acc.2 with threads := n % 2 ^ 8 })
      else .error (lit "unknown argon2 parameter " ++ quote L.unicode k)

/-- `if bad { return nil, errors.New(text) }`. -/
def refuse (bad : Prop) [Decidable bad] (text : Bytes) : Except Bytes Unit :=
  if bad then .error text else .ok ()

theorem refuse_eq_ok {bad : Prop} [Decidable bad] {text : Bytes} {u : Unit} :
    refuse bad text = .ok u ↔ ¬ bad := by
  unfold refuse
  split <;> simp_all

/-- The bounds on the parameters. -/
def argon2Bounds (p : Argon2Params) : Except Bytes Unit := do
  refuse (p.memoryKiB < argon2MinMemoryKiB ∨ argon2MaxMemoryKiB < p.memoryKiB)
    (lit "argon2 memory m=" ++ num p.memoryKiB ++ lit " KiB out of range [" ++
      num argon2MinMemoryKiB ++ lit ", " ++ num argon2MaxMemoryKiB ++ lit "]")
  refuse (p.time < 1 ∨ argon2MaxTime < p.time)
    (lit "argon2 iterations t=" ++ num p.time ++ lit " out of range [1, " ++
      num argon2MaxTime ++ lit "]")
  refuse (p.memoryKiB * p.time % 2 ^ 64 < argon2MinMemoryTimeKiB)
    (lit "argon2 parameters too weak: m x t must be at least " ++
      num argon2MinMemoryTimeKiB ++ lit " KiB (for example m=19456,t=2)")
  refuse (p.threads < 1 ∨ argon2MaxThreads < p.threads)
    (lit "argon2 parallelism p=" ++ num p.threads ++ lit " out of range [1, " ++
      num argon2MaxThreads ++ lit "]")

/-- `decodeB64`. -/
def decodeB64 (s : Bytes) : Option Bytes := rawBase64Decode (s.rdropWhile (· == 61))

/-- A field in Base64, of a length that is not bad. -/
def argon2Field (bad : Nat → Prop) [DecidablePred bad] (text field : Bytes) : Except Bytes Bytes :=
  match decodeB64 field with
  | some out => if bad out.length then .error text else .ok out
  | none => .error text

/-- The field that holds the salt. -/
def argon2Salt : Bytes → Except Bytes Bytes :=
  argon2Field (fun n => n < argon2MinSaltLen)
    (lit "argon2 salt must be base64 and at least " ++ num argon2MinSaltLen ++ lit " bytes")

/-- The field that holds the key. -/
def argon2Key : Bytes → Except Bytes Bytes :=
  argon2Field (fun n => n < argon2MinKeyLen ∨ argon2MaxKeyLen < n)
    (lit "argon2 hash must be base64 and " ++ num argon2MinKeyLen ++ lit " to " ++
      num argon2MaxKeyLen ++ lit " bytes")

def phcShape : Bytes := lit "$argon2id$v=19$m=...,t=...,p=...$<salt>$<hash>"

/-- `ParseArgon2id`; an error is its text. -/
def parseArgon2id (phc : Bytes) : Except Bytes Argon2Params :=
  match phc.splitOn 36 with
  | [[], alg, version, params, salt, key] => do
    refuse (alg ≠ lit "argon2id") (lit "unsupported hash algorithm " ++ quote L.unicode alg ++
      lit ", only argon2id is accepted")
    refuse (version ≠ lit "v=19")
      (lit "unsupported argon2 version " ++ quote L.unicode version ++ lit ", want v=19")
    let (seen, p) ← (params.splitOn 44).foldlM (argon2Param L params) ([], ⟨0, 0, 0, [], []⟩)
    refuse (lit "m" ∉ seen ∨ lit "t" ∉ seen ∨ lit "p" ∉ seen)
      (lit "argon2 parameters m, t and p are required")
    argon2Bounds p
    let salt ← argon2Salt salt
    let key ← argon2Key key
    return { p with salt := salt, key := key }
  | _ =>
    if (lit "$").isPrefixOf phc then .error (lit "malformed PHC string; expected " ++ phcShape)
    else .error (lit "not a PHC hash string; expected " ++ phcShape ++
      lit " (never the plaintext password)")

/-- `VerifyArgon2id`. -/
def verifyArgon2id (phc password : Bytes) : Except Bytes Bool := do
  let p ← parseArgon2id L phc
  return L.idKey password p.salt p.time p.memoryKiB p.threads p.key.length == p.key

/-- A PHC string that parses is not the hash of a generated password. -/
theorem isGeneratedHash_of_parseArgon2id {L : CredentialLibraries} {phc : Bytes}
    {p : Argon2Params} (h : parseArgon2id L phc = .ok p) (s : Bytes) :
    isGeneratedHash (phc ++ s) = false := by
  unfold parseArgon2id at h
  split at h
  · rename_i alg version params salt key hsplit
    have hphc : [36].intercalate (phc.splitOn 36) = phc := List.intercalate_splitOn 36
    rw [hsplit, List.intercalate_cons_cons] at hphc
    rw [← hphc]
    rfl
  · split at h <;> cases h

/-! ## Rotation -/

/-- `ParseDuration`; an error is its text. -/
def parseDuration (s : Bytes) : Except Bytes Int :=
  if s = [] then .ok 0
  else
    let d : Except Bytes Int :=
      if s.getLast? = some 100 then
        match parseUint 16 s.dropLast with
        | some n => .ok (n * 24 * hour)
        | none => .error (lit "invalid duration " ++ quote L.unicode s)
      else match L.parseDuration s with
        | some d => .ok d
        | none => .error (lit "invalid duration " ++ quote L.unicode s ++
            lit " (use a Go duration such as 24h, or days such as 90d)")
    match d with
    | .error err => .error err
    | .ok d =>
      if d < 0 then
        .error (lit "duration " ++ quote L.unicode s ++ lit " must not be negative")
      else .ok d

def defaultGracePeriod : Int := 24 * hour

def minRotationInterval : Int := hour

/-- The fields of `spec.rotation`. -/
inductive RotationField where
  | interval
  | gracePeriod
  deriving DecidableEq, Repr

def RotationField.name : RotationField → String
  | .interval => "interval"
  | .gracePeriod => "gracePeriod"

structure RotationError where
  field : RotationField
  value : Bytes
  detail : Bytes
  deriving DecidableEq, Repr

/-- `RotationError.Error`. -/
def RotationError.error (e : RotationError) : Bytes :=
  lit "spec.rotation." ++ lit e.field.name ++ lit ": " ++ e.detail

/-- The interval: none, or at least `MinRotationInterval`. -/
def parseInterval (s : Bytes) : Except RotationError Int :=
  match parseDuration L s with
  | .error detail => .error ⟨.interval, s, detail⟩
  | .ok d =>
    if d ≠ 0 ∧ d < minRotationInterval then .error ⟨.interval, s, lit "must be at least 1h"⟩
    else .ok d

/-- The grace period, where it is set. -/
def parseGrace (s : Bytes) : Except RotationError Int :=
  if s = [] then .ok defaultGracePeriod
  else match parseDuration L s with
  | .error detail => .error ⟨.gracePeriod, s, detail⟩
  | .ok d => .ok d

/-- `ParseRotation`: interval and grace period, or the errors joined. -/
def parseRotation : Option CredentialRotation → Except (List RotationError) (Int × Int)
  | none => .ok (0, defaultGracePeriod)
  | some rot =>
    match parseInterval L rot.interval, parseGrace L rot.gracePeriod with
    | .ok interval, .ok grace => .ok (interval, grace)
    | .error e, .ok _ => .error [e]
    | .ok _, .error e => .error [e]
    | .error e, .error e' => .error [e, e']

/-- The text of joined errors. -/
def joinErrors (errs : List RotationError) : Bytes :=
  List.intercalate [10] (errs.map RotationError.error)

/-! ## Namespaces and names -/

/-- `Exclusions`. -/
structure Exclusions where
  patterns : List Bytes
  releaseNamespace : Bytes
  deriving DecidableEq, Repr

/-- A pattern: a name, or the start of names before a `*`. -/
def excludes (pattern ns : Bytes) : Bool :=
  if pattern.getLast? = some 42 then pattern.dropLast.isPrefixOf ns else ns == pattern

/-- `Excluded`. -/
def Exclusions.excluded (e : Exclusions) (ns : Bytes) : Bool :=
  (e.releaseNamespace != [] && ns == e.releaseNamespace) || e.patterns.any (excludes · ns)

/-- `GeneratedNameError`; empty if there is nothing wrong. -/
def generatedNameError (name : Bytes) : Bytes :=
  if L.isValidLabelValue name = [] then []
  else lit "the name of a generated MailCredential becomes a label value of its Secret: " ++
    List.intercalate (lit "; ") (L.isValidLabelValue name)

end Credential

/-! ## The webhook -/

section Webhook
open Sigillum.Field Credential
variable (L : CredentialLibraries)

/-- `MailCredentialValidator`. -/
structure MailCredentialValidator where
  exclusions : Exclusions
  generatedEnabled : Bool
  deriving DecidableEq, Repr

/-- The errors of a bring-your-own-hash object. -/
def validateOwnHash (spec : MailCredentialSpec) : List Field.Error :=
  let path := lit "spec"
  (if spec.secretName ≠ [] then [forbidden (child path "secretName") (lit
    "secretName (generated mode) and passwordHash (bring your own hash) are mutually exclusive")]
  else []) ++
  (if spec.rotation.isSome then [forbidden (child path "rotation") (lit
    "rotation applies to generated passwords only; rotate a bring-your-own hash by replacing it")]
  else []) ++
  match parseArgon2id L spec.passwordHash with
  | .error err => [invalid (child path "passwordHash") (lit "(redacted)") err]
  | .ok _ => []

/-- The errors of a generated-mode object. -/
def validateGenerated (v : MailCredentialValidator) (mc : MailCredential) : List Field.Error :=
  let path := lit "spec"
  (if v.generatedEnabled then [] else [forbidden (child path "secretName") (lit
    ("generated credentials are disabled in this installation (credentials.enabled=false); " ++
      "set passwordHash instead"))]) ++
  (if generatedNameError L mc.name = [] then []
    else [invalid (child (lit "metadata") "name") mc.name (generatedNameError L mc.name)]) ++
  ((L.isDNS1123Subdomain mc.spec.secretName).map fun msg =>
    invalid (child path "secretName") mc.spec.secretName msg) ++
  match parseRotation L mc.spec.rotation with
  | .error errs => errs.map fun e =>
    invalid (child (child path "rotation") e.field.name) e.value e.detail
  | .ok _ => []

/-- The field errors of an object. -/
def MailCredentialValidator.errors (v : MailCredentialValidator) (mc : MailCredential) :
    List Field.Error :=
  let path := lit "spec"
  (if v.exclusions.excluded mc.ns then
    [forbidden (child (lit "metadata") "namespace") (lit "namespace " ++ mc.ns ++
      lit " is excluded from mail credentials (chart credentials.excludeNamespaces)")] else []) ++
  (if mc.spec.serviceAccountName = [] then
    [required (child path "serviceAccountName")
      (lit "the ServiceAccount the credential authenticates as")]
  else (L.isDNS1123Subdomain mc.spec.serviceAccountName).map fun msg =>
    invalid (child path "serviceAccountName") mc.spec.serviceAccountName msg) ++
  if mc.spec.passwordHash ≠ [] then validateOwnHash L mc.spec
  else if mc.spec.secretName = [] then
    [required (child path "secretName")
      (lit "set secretName (generated mode) or passwordHash (bring your own hash)")]
  else validateGenerated L v mc

/-- `MailCredentialValidator.validate`. -/
def MailCredentialValidator.validate (v : MailCredentialValidator) (mc : MailCredential) :
    Option InvalidObject :=
  newInvalid (lit "MailCredential") mc.name (v.errors L mc)

variable {L}

/-- A hash of the user's own that is accepted parses. -/
theorem MailCredentialValidator.parseArgon2id_of_validate {v : MailCredentialValidator}
    {mc : MailCredential} (h : v.validate L mc = none) (hmode : mc.generated = false) :
    ∃ p, parseArgon2id L mc.spec.passwordHash = .ok p := by
  have hhash : mc.spec.passwordHash ≠ [] := by simpa [MailCredential.generated] using hmode
  cases hparse : parseArgon2id L mc.spec.passwordHash with
  | ok p => exact ⟨p, rfl⟩
  | error err =>
    simp [validate, errors, newInvalid, hhash, validateOwnHash, hparse] at h

end Webhook
end Sigillum
