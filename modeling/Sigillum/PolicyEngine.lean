import Mathlib.Data.List.Sort
import Sigillum.Glob
import Sigillum.Mailbox

/-! # The policy engine

`api/v1alpha1` and `internal/policy/engine.go`: mail policies, which of them
applies to a caller (`policyMatch`) and whether it lets a message pass
(`evaluate`).  Strings are byte strings; `int32` and `int64` are integers, with
the one conversion that can wrap written out.
-/
namespace Sigillum
open Runes Bytes

/-! ## Policies -/

/-- `BackendKind`, a string the API server restricts to the first three. -/
inductive BackendKind where
  | mailBackend
  | clusterMailBackend
  | unset
  | other (kind : Bytes)
  deriving DecidableEq, Repr

structure BackendRef where
  name : Bytes
  kind : BackendKind
  deriving DecidableEq, Repr

/-- One matcher for callers; a valid subject has exactly one of the three. -/
structure PolicySubject where
  /-- The name of a service account. -/
  serviceAccount : Option Bytes
  serviceAccountSelector : Option LabelSelector
  podSelector : Option LabelSelector
  deriving DecidableEq, Repr

structure RecipientRestrictions where
  allowedDomains : List Bytes
  allowedRecipients : List Bytes
  blockedDomains : List Bytes
  deriving DecidableEq, Repr

structure RateLimitsSpec where
  messagesPerMinute : Int
  messagesPerHour : Int
  messagesPerDay : Int
  deriving DecidableEq, Repr

structure MessageLimitsSpec where
  maxSizeBytes : Int
  maxRecipients : Int
  deriving DecidableEq, Repr

structure MailPolicySpec where
  priority : Int
  subjects : List PolicySubject
  backendRef : BackendRef
  /-- `SenderRestrictions`, whose only field is `AllowedSenders`. -/
  senderRestrictions : Option (List Bytes)
  recipientRestrictions : Option RecipientRestrictions
  rateLimits : Option RateLimitsSpec
  messageLimits : Option MessageLimitsSpec
  /-- `LegacyAuthSpec`, whose only field is `PodIPFallback`. -/
  legacyAuth : Option Bool
  deriving DecidableEq, Repr

/-- A `MailPolicy` object, without its status. -/
structure MailPolicy where
  name : Bytes
  ns : Bytes
  uid : Bytes
  generation : Int
  spec : MailPolicySpec
  deriving DecidableEq, Repr

/-! ## Matching -/

/-- The authenticated identity of one request. -/
structure Caller where
  ns : Bytes
  serviceAccount : Bytes
  saLabels : List (Bytes × Bytes)
  saLabelsKnown : Bool
  legacyPodIP : Bool
  podLabels : List (Bytes × Bytes)
  deriving DecidableEq, Repr

/-- `NeedsSALabels`. -/
def needsSALabels (policies : List MailPolicy) : Bool :=
  policies.any fun p => p.spec.subjects.any fun s => s.serviceAccountSelector.isSome

section Engine
variable (L : Libraries)

/-- `selectorMatches`; an empty selector never matches. -/
def selectorMatches (sel : LabelSelector) (labels : List (Bytes × Bytes)) : Bool :=
  if sel.matchLabels.length = 0 ∧ sel.matchExpressions.length = 0 then false
  else match L.labelSelectorAsSelector sel with
  | .error _ => false
  | .ok isMatch => isMatch labels

/-- `subjectMatches`. -/
def subjectMatches (p : MailPolicy) (caller : Caller) : Bool :=
  p.spec.subjects.any fun s =>
    s.serviceAccount.any (fun name => name == caller.serviceAccount) ||
    s.serviceAccountSelector.any (fun sel =>
      caller.saLabelsKnown && selectorMatches L sel caller.saLabels) ||
    s.podSelector.any (fun sel => caller.legacyPodIP && selectorMatches L sel caller.podLabels)

/-- Whether `Match` takes a policy as a candidate. -/
def isCandidate (caller : Caller) (p : MailPolicy) : Bool :=
  p.ns == caller.ns && !(caller.legacyPodIP && !(p.spec.legacyAuth == some true)) &&
    subjectMatches L p caller

/-- The order of `Match`: higher priority first, then by name. -/
def precedes (p q : MailPolicy) : Bool :=
  if p.spec.priority ≠ q.spec.priority then decide (q.spec.priority < p.spec.priority)
  else decide (p.name < q.name)

/-- `Match`: the first candidate in a stable sort. -/
def policyMatch (policies : List MailPolicy) (caller : Caller) : Option MailPolicy :=
  ((policies.filter (isCandidate L caller)).insertionSort fun p q => precedes q p = false).head?

/-! ## Evaluation -/

/-- The part of a message the engine decides on. -/
structure MessageView where
  fromAddr : Bytes
  envelopeFrom : Bytes
  sender : Bytes
  /-- To, Cc and Bcc. -/
  recipients : List Bytes
  replyTo : List Bytes
  sizeBytes : Int
  deriving DecidableEq, Repr

inductive DenyReason where
  | noPolicy
  | senderNotAllowed
  | recipientBlocked
  | messageTooLarge
  | tooManyRecipients
  deriving DecidableEq, Repr

/-- The slug of a reason, for metrics, the audit stream and problem types. -/
def DenyReason.slug : DenyReason → Bytes
  | .noPolicy => lit "no_policy_matched"
  | .senderNotAllowed => lit "sender_not_allowed"
  | .recipientBlocked => lit "recipient_not_allowed"
  | .messageTooLarge => lit "message_too_large"
  | .tooManyRecipients => lit "too_many_recipients"

/-- `Decision`: allowed by the policy, or denied with a reason and a detail. -/
inductive Decision where
  | allowed (policy : MailPolicy)
  | denied (policy : Option MailPolicy) (reason : DenyReason) (detail : Bytes)
  deriving DecidableEq, Repr

/-- `globSlash`: `path.Match` treats `/` apart, so it becomes a byte no address contains. -/
def globSlash (s : Bytes) : Bytes := s.map fun c => if c = 47 then 0 else c

/-- `AddressMatches`: exactly, or as a glob, ignoring case. -/
def addressMatches (addr pattern : Bytes) : Bool :=
  let a := L.unicode.toLower (trimSpace addr)
  let p := L.unicode.toLower (trimSpace pattern)
  if p = a then true
  else if p.any (fun c => (lit "*?[").contains c) then
    Glob.pathMatch (globSlash p) (globSlash a) == some true
  else false

/-- `senderAllowed`. -/
def senderAllowed (sender : Bytes) (allowed : List Bytes) : Bool :=
  allowed.any fun pattern => addressMatches L sender pattern

/-- The addresses `SendersAllowed` checks. -/
def MessageView.senders (msg : MessageView) : List Bytes :=
  [msg.fromAddr] ++ (if msg.envelopeFrom ≠ [] then [msg.envelopeFrom] else []) ++
    (if msg.sender ≠ [] then [msg.sender] else [])

/-- `SendersAllowed`: the first sender no entry allows. -/
def sendersAllowed (msg : MessageView) (allowed : List Bytes) : Option Bytes :=
  msg.senders.find? fun sender => !senderAllowed L sender allowed

/-- `domainOf`. -/
def domainOf (addr : Bytes) : Bytes :=
  match cutLast 64 addr with
  | none => []
  | some (_, domain) => L.unicode.toLower domain

/-- `recipientAllowed`: blocked domains win over both allowlists. -/
def recipientAllowed (addr : Bytes) : Option RecipientRestrictions → Bool
  | none => true
  | some r =>
    let domain := domainOf L addr
    if r.blockedDomains.any (fun d => L.unicode.equalFold d domain) then false
    else if r.allowedDomains.length = 0 ∧ r.allowedRecipients.length = 0 then true
    else r.allowedDomains.any (fun d => L.unicode.equalFold d domain) ||
      r.allowedRecipients.any (fun p => addressMatches L addr p)

/-- The conversion `int32(n)`. -/
def toInt32 (n : Int) : Int := Int.bmod n (2 ^ 32)

/-- The two message limits of a policy. -/
def exceedsLimits (limits : MessageLimitsSpec) (msg : MessageView) : Option (DenyReason × Bytes) :=
  if 0 < limits.maxSizeBytes ∧ limits.maxSizeBytes < msg.sizeBytes then
    some (.messageTooLarge, lit "message exceeds policy maxSizeBytes")
  else if 0 < limits.maxRecipients ∧ limits.maxRecipients < toInt32 msg.recipients.length then
    some (.tooManyRecipients, lit "message exceeds policy maxRecipients")
  else none

/-- Whether a recipient or Reply-To address is refused. -/
def refused (r : Option RecipientRestrictions) (addr : Bytes) : Bool :=
  (validateMailbox L.unicode addr).isSome || !recipientAllowed L addr r

/-- `Evaluate`. -/
def evaluate (policy : Option MailPolicy) (msg : MessageView) : Decision :=
  match policy with
  | none => .denied none .noPolicy (lit "no policy matched the calling subject")
  | some p =>
    match p.spec.messageLimits.bind fun limits => exceedsLimits limits msg with
    | some (reason, detail) => .denied (some p) reason detail
    | none =>
      match p.spec.senderRestrictions.bind fun allowed => sendersAllowed L msg allowed with
      | some sender =>
        .denied (some p) .senderNotAllowed
          (lit "sender '" ++ sender ++ lit "' not in allowedSenders")
      | none =>
        match msg.recipients.find? (refused L p.spec.recipientRestrictions) with
        | some r =>
          .denied (some p) .recipientBlocked
            (lit "recipient '" ++ r ++ lit "' not allowed by policy")
        | none =>
          match msg.replyTo.find? (refused L p.spec.recipientRestrictions) with
          | some r =>
            .denied (some p) .recipientBlocked
              (lit "reply-to '" ++ r ++ lit "' not allowed by policy")
          | none => .allowed p

end Engine

/-! ## What is allowed -/

section Allowed
variable {L : Libraries}

theorem refused_eq_false {r : Option RecipientRestrictions} {addr : Bytes} :
    refused L r addr = false ↔
      validateMailbox L.unicode addr = none ∧ recipientAllowed L addr r = true := by
  simp [refused]

/-- An allowed message is allowed by the policy it is evaluated against, and
every recipient and Reply-To address of it passes both checks. -/
theorem evaluate_eq_allowed {policy : Option MailPolicy} {msg : MessageView} {p : MailPolicy}
    (h : evaluate L policy msg = .allowed p) :
    policy = some p ∧ ∀ addr ∈ msg.recipients ++ msg.replyTo,
      validateMailbox L.unicode addr = none ∧
        recipientAllowed L addr p.spec.recipientRestrictions = true := by
  unfold evaluate at h
  split at h
  · cases h
  · split at h
    · cases h
    · split at h
      · cases h
      · split at h
        · cases h
        · rename_i hrecipients
          split at h
          · cases h
          · rename_i hreplyTo
            obtain rfl := Decision.allowed.inj h
            refine ⟨rfl, fun addr haddr => refused_eq_false.mp ?_⟩
            rcases List.mem_append.mp haddr with hmem | hmem
            · simpa using List.find?_eq_none.mp hrecipients addr hmem
            · simpa using List.find?_eq_none.mp hreplyTo addr hmem

/-- What `Match` returns is one of the policies listed and a candidate. -/
theorem mem_of_policyMatch {policies : List MailPolicy} {caller : Caller} {p : MailPolicy}
    (h : policyMatch L policies caller = some p) :
    p ∈ policies ∧ isCandidate L caller p = true := by
  have hmem := List.mem_of_head? h
  rw [List.mem_insertionSort] at hmem
  exact List.mem_filter.mp hmem

end Allowed
end Sigillum
