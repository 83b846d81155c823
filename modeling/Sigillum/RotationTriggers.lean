import Sigillum.CredentialCluster

/-! # Rotation triggers

A Secret is written only for an object read from the API server in the same reconcile,
and a trigger is consumed by the write it causes: a second reconcile of the object, with
everything else unchanged, writes nothing.

The second half rests on `Comes.again`: the draft of the second reconcile is the
status the first one stored, and concluding it once more changes nothing
(`conclude_again`).  It goes by what the first reconcile came to, a case each.
-/
namespace Sigillum
open Runes Bytes Duration Interaction Credential

namespace Controller

/-! ## Due on two views of an object -/

section Due
variable {L : CredentialLibraries} {r : Reconciler} {mc : MailCredential} {now : Int}

/-- A status that names a Secret only with a generated hash. -/
def NamesOwnSecret (st : MailCredentialStatus) : Prop :=
  ∀ cur, st.current = some cur → isGeneratedHash cur.hash = false → st.secretName = []

/-- Why a password is due depends on three fields of the status. -/
theorem rotationDue_congr {mc mc' : MailCredential} {now interval : Int}
    (hspec : mc'.spec = mc.spec) (hannotations : mc'.annotations = mc.annotations)
    (hcurrent : mc'.status.current = mc.status.current)
    (hname : mc'.status.secretName = mc.status.secretName)
    (hrequest : mc'.status.lastRotateRequest = mc.status.lastRotateRequest) :
    rotationDue mc' now interval = rotationDue mc now interval := by
  unfold rotationDue MailCredential.annotation
  rw [hspec, hannotations, hcurrent, hname, hrequest]

/-- A password in the right Secret that nothing asks to replace. -/
theorem rotationDue_eq_none {interval : Int} (cur : CredentialHash)
    (hcurrent : mc.status.current = some cur) (hname : mc.status.secretName = mc.spec.secretName)
    (hrequest : mc.annotation rotateAnnotation = mc.status.lastRotateRequest)
    (hinterval : ¬ (0 < interval ∧ cur.createdAt + interval ≤ now)) :
    rotationDue mc now interval = none := by
  simp [rotationDue, hcurrent, hname, hrequest, hinterval]

/-- **What the generated branch finds due looked due before.** -/
theorem rotationLooksDue_of_due (hnames : NamesOwnSecret mc.status)
    (hprepared : (prepare L r mc).verdict = none) (hmode : mc.generated = true)
    (hdue : due L r mc now ≠ none) : rotationLooksDue L mc now = true := by
  obtain ⟨-, hname, -⟩ := of_problem_eq_none (problem_of_verdict hprepared) hmode
  rw [rotationLooksDue, hmode, Bool.true_and, Option.isSome_iff_ne_none]
  by_cases hgenerated : ∀ cur, mc.status.current = some cur → isGeneratedHash cur.hash = true
  · -- the view is the same
    have hstatus := expire_status L r mc now
    rw [preparedStatus_of_generated hmode hgenerated] at hstatus
    have hsame : due L r mc now =
        rotationDue mc now (rotationSettings L mc.spec.rotation).1.1 := by
      refine rotationDue_congr rfl rfl ?_ ?_ ?_ <;> rw [hstatus] <;> rfl
    rwa [← hsame]
  · -- a hash of the user's own: the status names no Secret, the spec does
    simp only [not_forall, Bool.not_eq_true] at hgenerated
    obtain ⟨cur, hcur, hown⟩ := hgenerated
    have hchanged : mc.status.secretName ≠ mc.spec.secretName := by
      rw [hnames cur hcur hown]
      exact hname.symm
    simp [rotationDue, hcur, hchanged]

end Due

/-! ## Concluding a status once more -/

section Conclude

theorem mem_setCondition {conds : List CredentialCondition} {new c : CredentialCondition}
    (h : c ∈ setCondition conds new) : c ∈ conds ∨ c.type = new.type := by
  induction conds with
  | nil =>
    obtain rfl := List.mem_singleton.mp h
    exact .inr rfl
  | cons c' rest ih =>
    unfold setCondition at h
    split at h
    · rcases List.mem_cons.mp h with rfl | hrest
      · refine .inr ?_
        split <;> rfl
      · exact .inl (List.mem_cons_of_mem _ hrest)
    · rcases List.mem_cons.mp h with rfl | hrest
      · exact .inl List.mem_cons_self
      · exact (ih hrest).imp_left (List.mem_cons_of_mem _)

theorem find_setCondition_of_ne {type : ConditionType} (conds : List CredentialCondition)
    {new : CredentialCondition} (h : new.type ≠ type) :
    findStatusCondition (setCondition conds new) type = findStatusCondition conds type := by
  induction conds with
  | nil => simp [setCondition, findStatusCondition, h]
  | cons c rest ih =>
    unfold setCondition
    split
    · rename_i htype
      rw [findStatusCondition, findStatusCondition, List.find?_cons_of_neg (by split <;> simpa),
        List.find?_cons_of_neg (by simpa [htype])]
    · by_cases hc : c.type = type
      · simp [findStatusCondition, hc]
      · rw [findStatusCondition, findStatusCondition, List.find?_cons_of_neg (by simpa),
          List.find?_cons_of_neg (by simpa)]
        exact ih

/-- A condition that is there already, but for its time, changes nothing. -/
theorem setCondition_eq_self {conds : List CredentialCondition} {new : CredentialCondition}
    (time : Int)
    (h : findStatusCondition conds new.type = some { new with lastTransitionTime := time }) :
    setCondition conds new = conds := by
  induction conds with
  | nil => cases h
  | cons c rest ih =>
    unfold setCondition
    by_cases htype : c.type = new.type
    · rw [findStatusCondition, List.find?_cons_of_pos (by simpa)] at h
      obtain rfl := Option.some.inj h
      simp
    · rw [findStatusCondition, List.find?_cons_of_neg (by simpa)] at h
      rw [if_neg htype, ih h]

variable {mc mc' : MailCredential} {now : Int} {guard : Option (Bool × Bytes)} {d d' : Draft}

/-- **Concluding a status that has been stored changes nothing.** -/
theorem conclude_again (hgeneration : mc'.generation = mc.generation) (hspec : mc'.spec = mc.spec)
    (hmessage : d'.message = d.message) (hverdict : d'.verdict = d.verdict)
    (hconditions : d'.status.conditions = (conclude mc now guard d).stored.conditions)
    (haccount : d'.status.serviceAccountName =
      (conclude mc now guard d).stored.serviceAccountName) :
    conclude mc' now guard d' = d'.status := by
  have hready : readyCondition mc' now d' = readyCondition mc now d := by
    rw [readyCondition, readyCondition, hgeneration, hmessage, hverdict]
  have hstored : d'.status.conditions =
      (setCondition (guardConditions mc now d.status.conditions guard)
      (readyCondition mc now d)).map CredentialCondition.stored := hconditions
  have hguard : guardConditions mc' now d'.status.conditions guard = d'.status.conditions := by
    cases guard with
    | none =>
      refine List.filter_eq_self.mpr fun c hc => ?_
      rw [hstored] at hc
      obtain ⟨c', hc', rfl⟩ := List.mem_map.mp hc
      rcases mem_setCondition hc' with hkept | htype
      · exact (List.mem_filter.mp hkept).2
      · simp [CredentialCondition.stored, htype, readyCondition]
    | some verdict =>
      obtain ⟨time, htime⟩ :=
        find_setCondition_self d.status.conditions (managedCondition mc now verdict)
      have htype : (managedCondition mc now verdict).type = .secretsManaged := by
        unfold managedCondition
        split <;> rfl
      have hsame : managedCondition mc' now verdict = managedCondition mc now verdict := by
        rw [managedCondition, managedCondition, hgeneration]
      refine setCondition_eq_self (wholeSeconds time) ?_
      rw [hsame, hstored, find_stored, htype,
        find_setCondition_of_ne _ (by simp [readyCondition]), ← htype]
      exact congrArg (Option.map CredentialCondition.stored) htime
  have hset : setCondition d'.status.conditions (readyCondition mc now d) =
      d'.status.conditions := by
    obtain ⟨time, htime⟩ := conclude_ready mc now guard d
    refine setCondition_eq_self (wholeSeconds time) ?_
    rw [hstored, find_stored]
    exact congrArg (Option.map CredentialCondition.stored) htime
  have hsa : (if (readyCondition mc now d).status = .true then mc.spec.serviceAccountName
      else d'.status.serviceAccountName) = d'.status.serviceAccountName := by
    rw [haccount]
    simp only [MailCredentialStatus.stored, conclude]
    split <;> rfl
  rw [conclude, hready, hguard, hset, hspec, hsa]

end Conclude

/-! ## An unchanged environment -/

/-- What a reconcile finds outside the object: the ServiceAccounts, the guard, and what the
API server says to a Secret of a namespace and name. -/
structure Environment where
  serviceAccount : Bytes → Bytes → Option APIError
  guard : Bool × Bytes
  createSecret : Bytes → Bytes → Option APIError
  patchSecret : Bytes → Bytes → Option APIError

namespace Environment
variable (env : Environment)

/-- The answers of the environment; it says nothing about the object or new passwords. -/
def Gives : Event Call Call.Answer → Prop
  | ⟨.getServiceAccount ns name, a⟩ => a = env.serviceAccount ns name
  | ⟨.guardOK, a⟩ => a = env.guard
  | ⟨.createSecret s, a⟩ => a = env.createSecret s.ns s.name
  | ⟨.patchSecret p, a⟩ => a = env.patchSecret p.ns p.name
  | _ => True

/-- What comes of a rotation with the given password. -/
def outcome (r : Reconciler) (ns name : Bytes) (why : Option Trigger) (password : Bytes) :
    Outcome :=
  if r.generatedEnabled = false then .disabled
  else if why = none then .notDue
  else if env.guard.1 = false then .guardMissing env.guard.2
  else match env.createSecret ns name with
    | none => .written password
    | some err =>
      if err.kind ≠ .alreadyExists then .failed err
      else match env.patchSecret ns name with
        | none => .written password
        | some err => if err.kind = .invalid then .conflict else .failed err

variable {env} {r : Reconciler} {mc : MailCredential} {why : Option Trigger} {o : Outcome}

theorem outcome_of_tried (h : Tried env.Gives r mc why o) :
    ∃ password, o = env.outcome r mc.ns mc.spec.secretName why password := by
  have hguard : ∀ {a}, env.Gives ⟨.guardOK, a⟩ → env.guard = a := Eq.symm
  have hcreate : ∀ {u password a},
      env.Gives ⟨.createSecret (credentialSecret r mc u password), a⟩ →
      env.createSecret mc.ns mc.spec.secretName = a := Eq.symm
  have hpatch : ∀ {u password a},
      env.Gives ⟨.patchSecret (credentialPatch r mc u password), a⟩ →
      env.patchSecret mc.ns mc.spec.secretName = a := Eq.symm
  cases h with
  | disabled hoff => exact ⟨[], by simp [outcome, hoff]⟩
  | notDue hon hwhy => exact ⟨[], by simp [outcome, hon, hwhy]⟩
  | guardMissing hon hwhy hg => exact ⟨[], by simp [outcome, hon, hwhy, hguard hg]⟩
  | @created hon hwhy _ hg _ password hc =>
    exact ⟨password, by simp [outcome, hon, hwhy, hguard hg, hcreate hc]⟩
  | @patched hon hwhy _ hg _ password _ hc hexists hp =>
    exact ⟨password, by simp [outcome, hon, hwhy, hguard hg, hcreate hc, hpatch hp, hexists]⟩
  | conflict hon hwhy hg hc hexists hp hinvalid =>
    exact ⟨[], by simp [outcome, hon, hwhy, hguard hg, hcreate hc, hpatch hp, hexists, hinvalid]⟩
  | notCreated hon hwhy hg hc hexists =>
    exact ⟨[], by simp [outcome, hon, hwhy, hguard hg, hcreate hc, hexists]⟩
  | notPatched hon hwhy hg hc hexists hp hinvalid =>
    exact ⟨[], by simp [outcome, hon, hwhy, hguard hg, hcreate hc, hpatch hp, hexists, hinvalid]⟩

/-- Where no Secret is written, the password does not matter. -/
theorem outcome_congr {ns name password : Bytes}
    (h : (env.outcome r ns name why password).writes mc = []) (password' : Bytes) :
    env.outcome r ns name why password' = env.outcome r ns name why password := by
  unfold outcome at h ⊢
  repeat' split
  all_goals simp_all [Outcome.writes]

/-- Two looks at the guard are told the same. -/
theorem guard_unique {mc' : MailCredential} {guard guard' : Option (Bool × Bytes)}
    (hmode : mc'.generated = mc.generated) (h : Guarded env.Gives r mc guard)
    (h' : Guarded env.Gives r mc' guard') : guard' = guard := by
  unfold Guarded at h h'
  rw [hmode] at h'
  split at h
  · rename_i hreported
    rw [if_pos hreported] at h'
    obtain ⟨verdict, rfl, hverdict⟩ := h
    obtain ⟨verdict', rfl, hverdict'⟩ := h'
    exact congrArg some (Eq.trans hverdict' hverdict.symm)
  · rename_i hreported
    rw [if_neg hreported] at h'
    rw [h, h']

end Environment

/-! ## Preparing a status once more -/

/-- A status with nothing left to prepare. -/
structure Prepared (r : Reconciler) (mc : MailCredential) (st : MailCredentialStatus) : Prop where
  username : st.username = Credential.username mc.name mc.ns
  observed : st.observedGeneration = mc.generation
  generated : r.exclusions.excluded mc.ns = false → mc.generated = true →
    ∀ cur, st.current = some cur → isGeneratedHash cur.hash = true
  own : r.exclusions.excluded mc.ns = false → mc.generated = false →
    st.secretName = [] ∧ st.current = none ∧ st.previous = none

section Again
variable {L : CredentialLibraries} {r : Reconciler} {mc : MailCredential} {now : Int}
  {st : MailCredentialStatus}

theorem prepared_preparedStatus (r : Reconciler) (mc : MailCredential) :
    Prepared r mc (preparedStatus r mc) where
  username := by
    unfold preparedStatus
    dsimp only
    repeat' split
    all_goals rfl
  observed := by
    unfold preparedStatus
    dsimp only
    repeat' split
    all_goals rfl
  generated := fun hexcluded hmode _ hcur => isGeneratedHash_of_preparedStatus hexcluded hmode hcur
  own := fun hexcluded hmode => by simp [preparedStatus, hexcluded, hmode]

/-- Storing a status leaves nothing to prepare. -/
theorem Prepared.conclude_stored {d : Draft} (h : Prepared r mc d.status)
    (guard : Option (Bool × Bytes)) : Prepared r mc (conclude mc now guard d).stored where
  username := h.username
  observed := h.observed
  generated := by
    intro hexcluded hmode cur hcur
    obtain ⟨cur', hcur', rfl⟩ := Option.map_eq_some_iff.mp hcur
    exact h.generated hexcluded hmode cur' hcur'
  own := by
    intro hexcluded hmode
    obtain ⟨hname, hcurrent, hprevious⟩ := h.own hexcluded hmode
    exact ⟨hname, by simp [MailCredentialStatus.stored, conclude, hcurrent],
      by simp [MailCredentialStatus.stored, conclude, hprevious]⟩

/-- The object once its status has been stored. -/
def restored (mc : MailCredential) (version : Nat) (st : MailCredentialStatus) : MailCredential :=
  { mc with resourceVersion := version, status := st }

theorem Prepared.preparedStatus_eq (h : Prepared r mc st) (version : Nat) :
    preparedStatus r (restored mc version st) = st := by
  have hbegin : (Draft.begin (restored mc version st)).status = st := by
    change { st with
      username := Credential.username mc.name mc.ns
      observedGeneration := mc.generation } = st
    rw [← h.username, ← h.observed]
  unfold preparedStatus
  rw [hbegin]
  change (if r.exclusions.excluded mc.ns = true then st
    else if mc.generated = true then _ else _) = st
  split
  · rfl
  · rename_i hexcluded
    rw [Bool.not_eq_true] at hexcluded
    split
    · rename_i hmode
      split
      · rename_i hforeign
        cases hcur : st.current with
        | none => simp [hcur] at hforeign
        | some cur => simp [hcur, h.generated hexcluded hmode cur hcur] at hforeign
      · rfl
    · rename_i hmode
      obtain ⟨hname, hcurrent, hprevious⟩ := h.own hexcluded (by simpa using hmode)
      rw [← hname, ← hcurrent, ← hprevious]

theorem Prepared.prepare_eq (h : Prepared r mc st) (version : Nat) :
    prepare L r (restored mc version st) = { prepare L r mc with status := st } := by
  rw [Controller.prepare_eq, Controller.prepare_eq, h.preparedStatus_eq version]
  rfl

/-! ## The draft is settled by the environment -/

section Settled
variable {env : Environment} {written : List SecretWrite} {d : Draft}

theorem Drafted.of_refused (h : Drafted L env.Gives r mc now written d)
    (hverdict : (prepare L r mc).verdict.isSome = true) : written = [] ∧ d = prepare L r mc := by
  cases h with
  | refused => exact ⟨rfl, rfl⟩
  | noServiceAccount hnone => simp [hnone] at hverdict
  | ownHash hnone => simp [hnone] at hverdict
  | generated hnone => simp [hnone] at hverdict

theorem Drafted.of_noServiceAccount (h : Drafted L env.Gives r mc now written d)
    (hverdict : (prepare L r mc).verdict = none) {err : APIError}
    (haccount : env.serviceAccount mc.ns mc.spec.serviceAccountName = some err) :
    written = [] ∧ d = (prepare L r mc).noServiceAccount mc := by
  have habsent : none ≠ env.serviceAccount mc.ns mc.spec.serviceAccountName := by simp [haccount]
  cases h with
  | refused hsome => simp [hverdict] at hsome
  | noServiceAccount => exact ⟨rfl, rfl⟩
  | ownHash _ hget => exact absurd hget habsent
  | generated _ hget => exact absurd hget habsent

theorem Drafted.of_ownHash (h : Drafted L env.Gives r mc now written d)
    (hverdict : (prepare L r mc).verdict = none)
    (haccount : env.serviceAccount mc.ns mc.spec.serviceAccountName = none)
    (hmode : mc.generated = false) :
    written = [] ∧ d = (prepare L r mc).acceptOwnHash mc now := by
  cases h with
  | refused hsome => simp [hverdict] at hsome
  | @noServiceAccount _ err hget _ =>
    have hsome : some err = env.serviceAccount mc.ns mc.spec.serviceAccountName := hget
    simp [haccount] at hsome
  | ownHash => exact ⟨rfl, rfl⟩
  | generated _ _ hgenerated => simp [hmode] at hgenerated

theorem Drafted.of_generated (h : Drafted L env.Gives r mc now written d)
    (hverdict : (prepare L r mc).verdict = none)
    (haccount : env.serviceAccount mc.ns mc.spec.serviceAccountName = none)
    (hmode : mc.generated = true) :
    ∃ outcome, Tried env.Gives r mc (due L r mc now) outcome ∧ written = outcome.writes mc ∧
      d = (outcome.apply L mc now (rotationSettings L mc.spec.rotation).1.2
        ((prepare L r mc).expire now)).settle := by
  cases h with
  | refused hsome => simp [hverdict] at hsome
  | @noServiceAccount _ err hget _ =>
    have hsome : some err = env.serviceAccount mc.ns mc.spec.serviceAccountName := hget
    simp [haccount] at hsome
  | ownHash _ _ hown => simp [hmode] at hown
  | @generated _ _ _ outcome htried => exact ⟨outcome, htried, rfl, rfl⟩

end Settled

/-! ## The second draft -/

/-- The second draft says what the first one said, about the status that was stored. -/
structure Repeats (written : List SecretWrite) (d d' : Draft) (st : MailCredentialStatus) :
    Prop where
  unwritten : written = []
  message : d'.message = d.message
  verdict : d'.verdict = d.verdict
  status : d'.status = st

section Second
variable {env : Environment} {written written' : List SecretWrite} {d d' : Draft}
  {guard : Option (Bool × Bytes)} {version : Nat}

/-- Preparing an object whose status was concluded from a prepared one. -/
theorem prepare_restored (L : CredentialLibraries) (h : Prepared r mc d.status)
    (hst : st = (conclude mc now guard d).stored) (version : Nat) :
    prepare L r (restored mc version st) = { prepare L r mc with status := st } := by
  subst hst
  exact (h.conclude_stored guard).prepare_eq version

theorem prepared_prepare (L : CredentialLibraries) (r : Reconciler) (mc : MailCredential) :
    Prepared r mc (prepare L r mc).status := by
  rw [Controller.prepare_eq]
  exact prepared_preparedStatus r mc

theorem Drafted.again_refused (hverdict : (prepare L r mc).verdict.isSome = true)
    (hd : d = prepare L r mc) (hst : st = (conclude mc now guard d).stored)
    (h : Drafted L env.Gives r (restored mc version st) now written d') :
    Repeats written d d' st := by
  subst hd
  have hprepare := prepare_restored L (prepared_prepare L r mc) hst version
  obtain ⟨rfl, rfl⟩ := h.of_refused (by rw [hprepare]; exact hverdict)
  rw [hprepare]
  exact ⟨rfl, rfl, rfl, rfl⟩

theorem Drafted.again_noServiceAccount (hverdict : (prepare L r mc).verdict = none)
    {err : APIError} (haccount : env.serviceAccount mc.ns mc.spec.serviceAccountName = some err)
    (hd : d = (prepare L r mc).noServiceAccount mc) (hst : st = (conclude mc now guard d).stored)
    (h : Drafted L env.Gives r (restored mc version st) now written d') :
    Repeats written d d' st := by
  have hprepared : Prepared r mc d.status := by
    rw [hd]
    exact prepared_prepare L r mc
  have hprepare := prepare_restored L hprepared hst version
  obtain ⟨rfl, rfl⟩ := h.of_noServiceAccount (by rw [hprepare]; exact hverdict) haccount
  rw [hprepare, hd]
  exact ⟨rfl, rfl, rfl, rfl⟩

/-- A hash of the user's own, once accepted. -/
theorem acceptOwnHash_eq (hproblem : problem L r mc = none) (hmode : mc.generated = false) :
    (prepare L r mc).acceptOwnHash mc now =
      ⟨{ (Draft.begin mc).status with
          secretName := []
          current := some ⟨mc.spec.passwordHash, Draft.acceptedAt mc now⟩
          previous := none },
        lit "credential ready; password verified against spec.passwordHash",
        some (.true, .bringYourOwnHash)⟩ := by
  obtain ⟨hexcluded, -⟩ := parseArgon2id_of_problem_eq_none hproblem hmode
  rw [Draft.acceptOwnHash, if_neg (by simp [Controller.prepare_eq, hproblem, hmode])]
  simp [Controller.prepare_eq, preparedStatus, hexcluded, hmode]

theorem Drafted.again_ownHash (hverdict : (prepare L r mc).verdict = none)
    (haccount : env.serviceAccount mc.ns mc.spec.serviceAccountName = none)
    (hmode : mc.generated = false) (hd : d = (prepare L r mc).acceptOwnHash mc now)
    (hst : st = (conclude mc now guard d).stored)
    (h : Drafted L env.Gives r (restored mc version st) now written d') :
    Repeats written d d' st := by
  have hproblem := problem_of_verdict hverdict
  -- nothing is wrong with the object, whatever its status
  have hproblem' : problem L r (restored mc version st) = none := hproblem
  have hverdict' : (prepare L r (restored mc version st)).verdict = none := by
    rw [Controller.prepare_eq, hproblem']
    rfl
  rw [acceptOwnHash_eq hproblem hmode] at hd
  obtain ⟨rfl, rfl⟩ := h.of_ownHash hverdict' haccount hmode
  rw [acceptOwnHash_eq hproblem' hmode]
  subst hd hst
  refine ⟨rfl, rfl, rfl, ?_⟩
  simp [Draft.begin, restored, MailCredentialStatus.stored, conclude, Draft.acceptedAt,
    CredentialHash.stored]

/-- What a rotation that wrote nothing says depends on the password there is, and on the
names of the object and of its Secret. -/
theorem Outcome.apply_congr {mc mc' : MailCredential} {now grace : Int} {outcome : Outcome}
    (hconflict : conflictMessage mc' = conflictMessage mc) (hmessage : d'.message = d.message)
    (hverdict : d'.verdict = d.verdict) (hcurrent : d'.status.current = d.status.current)
    (hname : d'.status.secretName = d.status.secretName) (hnone : outcome.writes mc = []) :
    (outcome.apply L mc' now grace d').settle.message =
        (outcome.apply L mc now grace d).settle.message ∧
      (outcome.apply L mc' now grace d').settle.verdict =
        (outcome.apply L mc now grace d).settle.verdict := by
  have hsettle : ∀ {a b : Draft}, a.message = b.message → a.verdict = b.verdict →
      a.status.secretName = b.status.secretName →
      a.settle.message = b.settle.message ∧ a.settle.verdict = b.settle.verdict := by
    intro a b hmessage hverdict hname
    unfold Draft.settle
    rw [hverdict]
    split
    · exact ⟨hmessage, hverdict⟩
    · simp [hmessage, hname]
  have hkeep : ∀ reason msg,
      (d'.keepOrFail reason msg).settle.message = (d.keepOrFail reason msg).settle.message ∧
      (d'.keepOrFail reason msg).settle.verdict = (d.keepOrFail reason msg).settle.verdict := by
    intro reason msg
    unfold Draft.keepOrFail
    rw [hcurrent, hname]
    split
    · exact hsettle rfl hverdict hname
    · exact hsettle rfl rfl hname
  cases outcome with
  | written => cases hnone
  | disabled => exact hsettle rfl rfl hname
  | notDue => exact hsettle hmessage hverdict hname
  | guardMissing msg => exact hkeep .guardMissing msg
  | conflict =>
    rw [Outcome.apply, Outcome.apply, hconflict]
    exact hkeep .secretConflict (conflictMessage mc)
  | failed err => exact hkeep .secretWriteFailed err.text

theorem Prepared.expire (h : Prepared r mc st) (now : Int) :
    Prepared r mc { st with previous := st.previous.filter fun prev => now < prev.validUntil } where
  username := h.username
  observed := h.observed
  generated := h.generated
  own := by
    intro hexcluded hmode
    obtain ⟨hname, hcurrent, hprevious⟩ := h.own hexcluded hmode
    exact ⟨hname, hcurrent, by simp [hprevious]⟩

/-- Preparing the status drops the previous hash or leaves it alone. -/
theorem preparedStatus_previous (r : Reconciler) (mc : MailCredential) :
    (preparedStatus r mc).previous = none ∨
      (preparedStatus r mc).previous = mc.status.previous := by
  unfold preparedStatus
  dsimp only
  repeat' split
  all_goals simp [Draft.begin]

/-- Storing a status that was stored before and expired changes neither hash: their times
are whole seconds already. -/
theorem expire_stored (L : CredentialLibraries) (r : Reconciler) (now : Int)
    (hwhole : mc.status.stored = mc.status) :
    ((prepare L r mc).expire now).status.current.map CredentialHash.stored =
        ((prepare L r mc).expire now).status.current ∧
      ((prepare L r mc).expire now).status.previous.map PreviousCredentialHash.stored =
        ((prepare L r mc).expire now).status.previous := by
  rw [expire_status L r mc now]
  constructor
  · rcases preparedStatus_current r mc with hcur | ⟨hcur, -⟩
    · simp [hcur]
    · simp only [hcur]
      exact congrArg MailCredentialStatus.current hwhole
  · rcases preparedStatus_previous r mc with hprev | hprev
    · simp [hprev]
    · have hsame : mc.status.previous.map PreviousCredentialHash.stored = mc.status.previous :=
        congrArg MailCredentialStatus.previous hwhole
      simp only [hprev]
      rcases filter_validUntil_cases mc.status.previous now with hlive | ⟨-, -, -, hnone⟩
      · rw [hlive, hsame]
      · rw [hnone]
        rfl

theorem Drafted.again_unwritten (hwhole : mc.status.stored = mc.status)
    (hverdict : (prepare L r mc).verdict = none)
    (haccount : env.serviceAccount mc.ns mc.spec.serviceAccountName = none)
    (hmode : mc.generated = true) {o : Outcome}
    (htried : Tried env.Gives r mc (due L r mc now) o) (hnone : o.writes mc = [])
    (hd : d = (o.apply L mc now (rotationSettings L mc.spec.rotation).1.2
      ((prepare L r mc).expire now)).settle) (hst : st = (conclude mc now guard d).stored)
    (h : Drafted L env.Gives r (restored mc version st) now written d') :
    Repeats written d d' st := by
  have hexpire := expire_status L r mc now
  have hstatus : d.status = ((prepare L r mc).expire now).status := by
    rw [hd, Draft.settle_status, Outcome.apply_status hnone]
  have hprepared : Prepared r mc d.status := by
    rw [hstatus, hexpire]
    exact (prepared_preparedStatus r mc).expire now
  have hprepare := prepare_restored L hprepared hst version
  obtain ⟨hcurrent, hprevious⟩ := expire_stored L r now hwhole
  have hcurrent' : st.current = ((prepare L r mc).expire now).status.current := by
    rw [← hcurrent, hst, ← hstatus]
    rfl
  have hprevious' : st.previous = ((prepare L r mc).expire now).status.previous := by
    rw [← hprevious, hst, ← hstatus]
    rfl
  have hname : st.secretName = ((prepare L r mc).expire now).status.secretName := by
    rw [hst, ← hstatus]
    rfl
  have hrequest : st.lastRotateRequest =
      ((prepare L r mc).expire now).status.lastRotateRequest := by
    rw [hst, ← hstatus]
    rfl
  have hexpire' : (prepare L r (restored mc version st)).expire now =
      { prepare L r mc with status := st } := by
    have hfilter : (st.previous.filter fun prev => now < prev.validUntil) = st.previous := by
      rw [hprevious', hexpire]
      simp
    rw [hprepare, Draft.expire, hfilter]
  have hdue : due L r (restored mc version st) now = due L r mc now := by
    refine rotationDue_congr rfl rfl ?_ ?_ ?_
    · rw [hexpire']
      exact hcurrent'
    · rw [hexpire']
      exact hname
    · rw [hexpire']
      exact hrequest
  obtain ⟨o', htried', hwritten, hd'⟩ :=
    h.of_generated (by rw [hprepare]; exact hverdict) haccount hmode
  obtain rfl : o' = o := by
    rw [hdue] at htried'
    obtain ⟨password, rfl⟩ := Environment.outcome_of_tried htried
    obtain ⟨password', rfl⟩ := Environment.outcome_of_tried htried'
    exact Environment.outcome_congr hnone password'
  have hnone' : o'.writes (restored mc version st) = [] := by
    cases o' with
    | written => cases hnone
    | _ => rfl
  rw [hexpire'] at hd'
  have hsame : d'.message = d.message ∧ d'.verdict = d.verdict := by
    rw [hd', hd]
    exact Outcome.apply_congr rfl rfl rfl hcurrent' hname hnone
  refine ⟨hwritten.trans hnone', hsame.1, hsame.2, ?_⟩
  rw [hd', Draft.settle_status, Outcome.apply_status hnone']

/-- A rotation is at least an hour away, or not scheduled. -/
theorem hour_le_interval {rot : Option CredentialRotation}
    (h : 0 < (rotationSettings L rot).1.1) : hour ≤ (rotationSettings L rot).1.1 := by
  have hinterval : ∀ {s : Bytes} {d : Int}, parseInterval L s = .ok d → 0 < d → hour ≤ d := by
    intro s d hd hpos
    unfold parseInterval at hd
    split at hd
    · cases hd
    · split at hd
      · cases hd
      · rename_i hshort
        obtain rfl := Except.ok.inj hd
        have hmin : minRotationInterval = hour := rfl
        omega
  unfold rotationSettings at h ⊢
  split at h
  · rename_i settings hsettings
    unfold parseRotation at hsettings
    split at hsettings
    · obtain rfl := Except.ok.inj hsettings
      cases h
    · split at hsettings
      · rename_i hok _
        obtain rfl := Except.ok.inj hsettings
        exact hinterval hok h
      · cases hsettings
      · cases hsettings
      · cases hsettings
  · cases h

/-- So a rotation of now, in whole seconds, is not one that is over. -/
theorem interval_not_elapsed (L : CredentialLibraries) (rot : Option CredentialRotation)
    (now : Int) : ¬ (0 < (rotationSettings L rot).1.1 ∧
      wholeSeconds now + (rotationSettings L rot).1.1 ≤ now) := by
  rintro ⟨hpos, helapsed⟩
  have hhour := hour_le_interval hpos
  have hlt := lt_wholeSeconds_add now
  have hsecond : second ≤ hour := by decide
  omega

/-- A password retired now that is over when it is stored had less than a second. -/
theorem grace_lt_of_expired {old : MailCredentialStatus} {grace : Int}
    {prev : PreviousCredentialHash}
    (h : (retire old now grace).map PreviousCredentialHash.stored = some prev)
    (hover : prev.validUntil ≤ now) : grace < second := by
  obtain ⟨retired, hretired, rfl⟩ := Option.map_eq_some_iff.mp h
  have huntil : retired.validUntil = now + grace := by
    unfold retire at hretired
    split at hretired
    · split at hretired
      · obtain rfl := Option.some.inj hretired
        rfl
      · cases hretired
    · cases hretired
  have hshort := lt_wholeSeconds_add retired.validUntil
  have hover' : wholeSeconds retired.validUntil ≤ now := hover
  omega

/-- A draft without a verdict or a message is ready. -/
theorem Draft.settle_eq (hverdict : d.verdict = none) (hmessage : d.message = []) :
    d.settle = ⟨d.status, lit "credential ready; password in Secret " ++ d.status.secretName,
      some (.true, .ready)⟩ := by
  simp [Draft.settle, hverdict, hmessage]

/-- The draft after a rotation. -/
theorem Outcome.settle_written {grace : Int} (password : Bytes) (hverdict : d.verdict = none)
    (hmessage : d.message = []) :
    ((Outcome.written password).apply L mc now grace d).settle =
      ⟨{ d.status with
          previous := retire d.status now grace
          current := some ⟨hashGenerated L password, now⟩
          secretName := mc.spec.secretName
          lastRotateRequest := mc.annotation rotateAnnotation },
        lit "credential ready; password in Secret " ++ mc.spec.secretName, some (.true, .ready)⟩ :=
  Draft.settle_eq hverdict hmessage

theorem Drafted.again_written (hverdict : (prepare L r mc).verdict = none)
    (haccount : env.serviceAccount mc.ns mc.spec.serviceAccountName = none)
    (hmode : mc.generated = true) (hon : r.generatedEnabled = true) {password : Bytes}
    (hd : d = ((Outcome.written password).apply L mc now (rotationSettings L mc.spec.rotation).1.2
      ((prepare L r mc).expire now)).settle) (hst : st = (conclude mc now guard d).stored)
    (h : Drafted L env.Gives r (restored mc version st) now written d') :
    Repeats written d d' st ∨
      (rotationSettings L mc.spec.rotation).1.2 < second ∧
        ∃ prev, st.previous = some prev ∧ prev.validUntil ≤ now ∧
          Repeats written d d' { st with previous := none } := by
  have hexpire := expire_status L r mc now
  have hproblem := problem_of_verdict hverdict
  have hmessage : (prepare L r mc).message = [] := by
    rw [Controller.prepare_eq, hproblem]
    rfl
  rw [Outcome.settle_written (d := (prepare L r mc).expire now) password hverdict hmessage] at hd
  have hprepared : Prepared r mc d.status := by
    have hbefore := prepared_prepare L r mc
    rw [hd]
    refine ⟨hbefore.username, hbefore.observed, fun _ _ cur hcur => ?_, fun _ hown => ?_⟩
    · obtain rfl := Option.some.inj hcur
      exact isGeneratedHash_hashGenerated L password
    · simp [hmode] at hown
  have hprepare := prepare_restored L hprepared hst version
  have hexpire' : (prepare L r (restored mc version st)).expire now =
      { prepare L r mc with status := { st with
        previous := st.previous.filter fun prev => now < prev.validUntil } } := by
    rw [hprepare]
    rfl
  have hcurrent : st.current = some ⟨hashGenerated L password, wholeSeconds now⟩ := by
    rw [hst, hd]
    rfl
  have hname : st.secretName = mc.spec.secretName := by
    rw [hst, hd]
    rfl
  have hrequest : st.lastRotateRequest = mc.annotation rotateAnnotation := by
    rw [hst, hd]
    rfl
  have hdue : due L r (restored mc version st) now = none := by
    refine rotationDue_eq_none ⟨hashGenerated L password, wholeSeconds now⟩ ?_ ?_ ?_
      (interval_not_elapsed L mc.spec.rotation now)
    · rw [hexpire']
      exact hcurrent
    · rw [hexpire']
      exact hname
    · rw [hexpire']
      exact hrequest.symm
  obtain ⟨o', htried, hwritten, hd'⟩ :=
    h.of_generated (by rw [hprepare]; exact hverdict) haccount hmode
  obtain rfl : o' = .notDue := by
    rw [hdue] at htried
    cases htried with
    | disabled hoff => simp [hon] at hoff
    | notDue => rfl
    | _ => contradiction
  have hsettled : d' =
      ⟨{ st with previous := st.previous.filter fun prev => now < prev.validUntil },
      lit "credential ready; password in Secret " ++ mc.spec.secretName, some (.true, .ready)⟩ := by
    rw [hd', hexpire', ← hname]
    exact Draft.settle_eq hverdict hmessage
  have hrepeats : Repeats written d d'
      { st with previous := st.previous.filter fun prev => now < prev.validUntil } := by
    refine ⟨hwritten, ?_, ?_, ?_⟩ <;> rw [hsettled]
    · rw [hd]
    · rw [hd]
  rcases filter_validUntil_cases st.previous now with hlive | ⟨prev, hprev, hover, hnone⟩
  · rw [hlive] at hrepeats
    exact .inl hrepeats
  · -- the time of the previous password, in whole seconds, is over
    have hstored : st.previous = (retire ((prepare L r mc).expire now).status now
        (rotationSettings L mc.spec.rotation).1.2).map PreviousCredentialHash.stored := by
      rw [hst, hd]
      rfl
    have hshort := grace_lt_of_expired (hstored.symm.trans hprev) hover
    rw [hnone] at hrepeats
    exact .inr ⟨hshort, prev, hprev, hover, hrepeats⟩

end Second

/-- **A second reconcile comes to the status of the first.**  It writes no Secret, and all
it may change is to drop a previous password whose grace period, under a second, has
gone by in the whole seconds it was stored in. -/
theorem Comes.again {env : Environment} {written written' : List SecretWrite}
    {st' : MailCredentialStatus} {version : Nat} (hwhole : mc.status.stored = mc.status)
    (h : Comes L env.Gives r mc now written st)
    (h' : Comes L env.Gives r (restored mc version st.stored) now written' st') :
    written' = [] ∧ (st' = st.stored ∨ written ≠ [] ∧
      (rotationSettings L mc.spec.rotation).1.2 < second ∧
      ∃ prev, st.stored.previous = some prev ∧ prev.validUntil ≤ now ∧
        st' = { st.stored with previous := none }) := by
  obtain ⟨d, guard, hdrafted, hguarded, rfl⟩ := h
  obtain ⟨d', guard', hdrafted', hguarded', rfl⟩ := h'
  obtain rfl : guard' = guard := Environment.guard_unique rfl hguarded hguarded'
  have hconclude : ∀ prev,
      Repeats written' d d' { (conclude mc now guard' d).stored with previous := prev } →
      written' = [] ∧
        conclude (restored mc version (conclude mc now guard' d).stored) now guard' d' =
          { (conclude mc now guard' d).stored with previous := prev } := by
    intro prev hrepeats
    have hconditions := congrArg MailCredentialStatus.conditions hrepeats.status
    have haccount := congrArg MailCredentialStatus.serviceAccountName hrepeats.status
    refine ⟨hrepeats.unwritten, ?_⟩
    rw [← hrepeats.status]
    refine conclude_again ?_ ?_ hrepeats.message hrepeats.verdict hconditions haccount <;> rfl
  have hsame := hconclude (conclude mc now guard' d).stored.previous
  cases hdrafted with
  | refused hverdict =>
    exact (hsame (hdrafted'.again_refused hverdict rfl rfl)).imp_right .inl
  | @noServiceAccount hverdict err hget _ =>
    have haccount : some err = env.serviceAccount mc.ns mc.spec.serviceAccountName := hget
    exact (hsame (hdrafted'.again_noServiceAccount hverdict haccount.symm rfl rfl)).imp_right .inl
  | ownHash hverdict hget hmode =>
    have haccount : none = env.serviceAccount mc.ns mc.spec.serviceAccountName := hget
    exact (hsame (hdrafted'.again_ownHash hverdict haccount.symm hmode rfl rfl)).imp_right .inl
  | @generated hverdict hget hmode o htried =>
    have haccount : none = env.serviceAccount mc.ns mc.spec.serviceAccountName := hget
    by_cases hnone : o.writes mc = []
    · exact (hsame (hdrafted'.again_unwritten hwhole hverdict haccount.symm hmode htried hnone rfl
        rfl)).imp_right .inl
    · cases o with
      | written password =>
        have hon : r.generatedEnabled = true := by
          cases htried <;> assumption
        rcases hdrafted'.again_written hverdict haccount.symm hmode hon rfl rfl with
          hrepeats | ⟨hshort, prev, hprev, hover, hrepeats⟩
        · exact (hsame hrepeats).imp_right .inl
        · exact (hconclude none hrepeats).imp_right
            fun hst => .inr ⟨hnone, hshort, prev, hprev, hover, hst⟩
      | _ => exact absurd rfl hnone

end Again

/-! ## Runs -/

section Runs
variable {L : CredentialLibraries} {r : Reconciler} {now : Int} {t : ReconcileTrace}
  {res : Except Bytes Int}

/-- Every object that is read is `mc`. -/
def Shows (mc : MailCredential) : Event Call Call.Answer → Prop
  | ⟨.get, .ok read⟩ => read = mc
  | ⟨.apiGet, .ok read⟩ => read = mc
  | _ => True

/-- The status a reconcile of `mc` leaves: the one the API server took, or that of the
object if there was nothing to write. -/
def LeavesStatus (t : ReconcileTrace) (mc : MailCredential) (st : MailCredentialStatus) : Prop :=
  (∃ new, ⟨.statusUpdate new, none⟩ ∈ t ∧ st = new.status.stored) ∨
    Unreported t ∧ st = mc.status

theorem eq_of_decidedOn {mc mc' : MailCredential} (hread : ∀ e ∈ t, Shows mc e)
    (h : decidedOn L now t = some mc') : mc' = mc := by
  rcases read_of_decidedOn h with ⟨cached, t', rfl⟩ | ⟨⟨t', rfl⟩, -⟩
  · exact hread _ (List.mem_cons_of_mem _ List.mem_cons_self)
  · exact hread _ List.mem_cons_self

/-- A Secret that may be written is one the reconcile can come to have written. -/
theorem MayWrite.comes {P : Event Call Call.Answer → Prop} {mc : MailCredential}
    {password : Bytes} (h : MayWrite L P r now mc password t)
    (htried : Tried P r mc (Controller.due L r mc now) (.written password)) :
    ∃ st, Comes L P r mc now [((mc.ns, mc.spec.secretName), some password)] st := by
  obtain ⟨msg, hguard⟩ := h.guarded
  refine ⟨_, _, some (true, msg), .generated h.prepared h.account h.generated htried, ?_, rfl⟩
  rw [Guarded, if_pos (by simp [h.generated, h.enabled])]
  exact ⟨_, rfl, hguard⟩

theorem writes_append (t t' : ReconcileTrace) : writes (t ++ t') = writes t ++ writes t' :=
  List.filterMap_append

/-- **Writing a Secret is decided on a fresh object.** -/
theorem MayWrite.fresh {P : Event Call Call.Answer → Prop} {mc : MailCredential}
    {password : Bytes} (h : MayWrite L P r now mc password t)
    (hnames : ∀ mc, ⟨.get, .ok mc⟩ ∈ t ∨ ⟨.apiGet, .ok mc⟩ ∈ t → NamesOwnSecret mc.status) :
    ⟨.apiGet, .ok mc⟩ ∈ t ∧ rotationLooksDue L mc now = true := by
  rcases read_of_decidedOn h.deciding.decided with ⟨cached, t', rfl⟩ | ⟨⟨t', rfl⟩, hundue⟩
  · have hmem : (⟨.apiGet, .ok mc⟩ : Event Call Call.Answer) ∈
        ⟨.get, .ok cached⟩ :: ⟨.apiGet, .ok mc⟩ :: t' := List.mem_cons_of_mem _ List.mem_cons_self
    exact ⟨hmem, rotationLooksDue_of_due (hnames mc (.inr hmem)) h.prepared h.generated h.due⟩
  · -- nothing looked due on the cached object, so nothing is
    have hdue := rotationLooksDue_of_due (hnames mc (.inl List.mem_cons_self)) h.prepared
      h.generated h.due
    rw [hundue] at hdue
    cases hdue

/-- A Secret that is written was one that may be written. -/
theorem mayWrite_of_wrote {P : Event Call Call.Answer → Prop} {e : Event Call Call.Answer}
    (hcall : Protocol L P r now t e.1) (he : P e) (hwrote : wrote e ≠ none) :
    ∃ mc password, MayWrite L P r now mc password t ∧
      Tried P r mc (due L r mc now) (.written password) := by
  obtain ⟨c, a⟩ := e
  cases c with
  | createSecret s =>
    obtain ⟨mc, u, password, hmay, rfl⟩ := hcall
    obtain ⟨msg, hguard⟩ := hmay.guarded
    cases a with
    | none => exact ⟨mc, password, hmay, .created hmay.enabled hmay.due hguard he⟩
    | some err => exact absurd rfl hwrote
  | patchSecret p =>
    obtain ⟨mc, u, password, hmay, ⟨err, hcreate, hexists⟩, rfl⟩ := hcall
    obtain ⟨msg, hguard⟩ := hmay.guarded
    cases a with
    | none => exact ⟨mc, password, hmay, .patched hmay.enabled hmay.due hguard hcreate hexists he⟩
    | some err' => exact absurd rfl hwrote
  | _ => exact absurd rfl hwrote

/-- The status a reconcile leaves is one it came to. -/
theorem comes_of_leavesStatus {env : Environment} {mc : MailCredential}
    {st : MailCredentialStatus} {after : Int} (h : (reconcile L r now).Ran t (.ok after))
    (henv : ∀ e ∈ t, env.Gives e) (hdecided : decidedOn L now t = some mc)
    (hwhole : mc.status.stored = mc.status) (hleaves : LeavesStatus t mc st) :
    ∃ written made, Comes L env.Gives r mc now written made ∧ st = made.stored ∧
      (written ≠ [] → writes t ≠ []) := by
  obtain ⟨hmeets, hends⟩ := h.keeps (reconcile_keeps L env.Gives r now) henv
  rcases hleaves with ⟨new, hnew, rfl⟩ | ⟨hunreported, rfl⟩
  · obtain ⟨earlier, later, rfl⟩ := List.append_of_mem hnew
    obtain ⟨mc', hdecided', -, hcomes, -⟩ := (hmeets earlier later _ rfl).1
    obtain rfl := Option.some.inj ((decidedOn_append hdecided' _).symm.trans hdecided)
    refine ⟨_, _, hcomes, rfl, fun hne hnone => hne ?_⟩
    rw [writes_append] at hnone
    exact (List.append_eq_nil_iff.mp hnone).1
  · exact ⟨_, _, hends mc after hdecided rfl hunreported, hwhole.symm, fun hne => absurd rfl hne⟩

/-- **Each trigger is consumed once.**  Whatever a reconcile finds due looked due on the
object as it was read, and a Secret is written only for an object read from the API server
in that reconcile.  After a reconcile that succeeded, another one at the same time, on the
object with the status that was left and with everything else unchanged, writes no Secret;
and it leaves the status as it is, unless the password that was rotated out had less than a
second of grace and its time, stored in whole seconds, is over. -/
theorem trigger_consumed (h : (reconcile L r now).Ran t res) :
    (∀ mc, NamesOwnSecret mc.status → (prepare L r mc).verdict = none → mc.generated = true →
      due L r mc now ≠ none → rotationLooksDue L mc now = true) ∧
    ((∀ mc, ⟨.get, .ok mc⟩ ∈ t ∨ ⟨.apiGet, .ok mc⟩ ∈ t → NamesOwnSecret mc.status) →
      (∀ earlier later s a, t = earlier ++ ⟨.createSecret s, a⟩ :: later →
        ∃ mc u password, ⟨.apiGet, .ok mc⟩ ∈ earlier ∧ rotationLooksDue L mc now = true ∧
          s = credentialSecret r mc u password) ∧
      ∀ earlier later p a, t = earlier ++ ⟨.patchSecret p, a⟩ :: later →
        ∃ mc u password, ⟨.apiGet, .ok mc⟩ ∈ earlier ∧ rotationLooksDue L mc now = true ∧
          p = credentialPatch r mc u password) ∧
    ∀ (env : Environment) (after : Int) (mc : MailCredential) (st : MailCredentialStatus),
      (∀ e ∈ t, env.Gives e) → res = .ok after → decidedOn L now t = some mc →
      mc.status.stored = mc.status → LeavesStatus t mc st →
      ∀ (version : Nat) (t' : ReconcileTrace) (res' : Except Bytes Int),
        (reconcile L r now).Ran t' res' → (∀ e ∈ t', env.Gives e) →
        (∀ e ∈ t', Shows (restored mc version st) e) →
        writes t' = [] ∧ ∀ new a, ⟨.statusUpdate new, a⟩ ∈ t' →
          writes t ≠ [] ∧ (rotationSettings L mc.spec.rotation).1.2 < second ∧
          ∃ prev, st.previous = some prev ∧ prev.validUntil ≤ now ∧
            new.status = { st with previous := none } := by
  refine ⟨fun mc hnames hprepared hmode hdue =>
    rotationLooksDue_of_due hnames hprepared hmode hdue, fun hnames => ?_, ?_⟩
  · have hmeets := (h.keeps (reconcile_keeps L Any r now) fun _ _ => trivial).1
    have hbefore : ∀ {earlier later : ReconcileTrace} {e : Event Call Call.Answer},
        t = earlier ++ e :: later →
        ∀ mc, ⟨.get, .ok mc⟩ ∈ earlier ∨ ⟨.apiGet, .ok mc⟩ ∈ earlier →
          NamesOwnSecret mc.status := by
      rintro earlier later e rfl mc hread
      exact hnames mc (hread.imp (List.mem_append_left _) (List.mem_append_left _))
    constructor
    · intro earlier later s a ht
      obtain ⟨mc, u, password, hmay, rfl⟩ := (hmeets earlier later _ ht).1
      obtain ⟨hfresh, hdue⟩ := hmay.fresh (hbefore ht)
      exact ⟨mc, u, password, hfresh, hdue, rfl⟩
    · intro earlier later p a ht
      obtain ⟨mc, u, password, hmay, -, rfl⟩ := (hmeets earlier later _ ht).1
      obtain ⟨hfresh, hdue⟩ := hmay.fresh (hbefore ht)
      exact ⟨mc, u, password, hfresh, hdue, rfl⟩
  · rintro env after mc st henv rfl hdecided hwhole hleaves version t' res' hran' henv' hshows
    obtain ⟨written, made, hcomes, rfl, hwritten⟩ :=
      comes_of_leavesStatus h henv hdecided hwhole hleaves
    have hmeets := (hran'.keeps (reconcile_keeps L env.Gives r now) henv').1
    -- what the second reconcile can come to is settled by the first
    have hnone : ∀ e ∈ t', wrote e = none := by
      intro e he
      by_contra hwrote
      obtain ⟨earlier, later, rfl⟩ := List.append_of_mem he
      obtain ⟨mc', password, hmay, htried⟩ :=
        mayWrite_of_wrote (hmeets earlier later e rfl).1 (henv' e he) hwrote
      obtain rfl := eq_of_decidedOn hshows (decidedOn_append hmay.deciding.decided _)
      obtain ⟨st', hcomes'⟩ := hmay.comes htried
      exact absurd (hcomes.again hwhole hcomes').1 (by simp)
    refine ⟨List.filterMap_eq_nil_iff.mpr hnone, fun new a hnew => ?_⟩
    obtain ⟨earlier, later, rfl⟩ := List.append_of_mem hnew
    obtain ⟨mc', hdecided', -, hcomes', hchanged⟩ := (hmeets earlier later _ rfl).1
    obtain rfl := eq_of_decidedOn hshows (decidedOn_append hdecided' _)
    obtain ⟨hunwritten, hsame | ⟨hne, hshort, prev, hprev, hover, hdropped⟩⟩ :=
      hcomes.again hwhole hcomes'
    · exact absurd hsame (hchanged hunwritten)
    · exact ⟨hwritten hne, hshort, prev, hprev, hover, hdropped⟩

end Runs

/-! ### A first password, and one with half a second of grace -/

instance (env : Environment) : DecidablePred env.Gives
  | ⟨.getServiceAccount ns name, a⟩ => inferInstanceAs (Decidable (a = env.serviceAccount ns name))
  | ⟨.guardOK, a⟩ => inferInstanceAs (Decidable (a = env.guard))
  | ⟨.createSecret s, a⟩ => inferInstanceAs (Decidable (a = env.createSecret s.ns s.name))
  | ⟨.patchSecret p, a⟩ => inferInstanceAs (Decidable (a = env.patchSecret p.ns p.name))
  | ⟨.get, _⟩ | ⟨.apiGet, _⟩ | ⟨.generatePassword, _⟩ | ⟨.statusUpdate _, _⟩ | ⟨.contextAlive, _⟩ =>
    inferInstanceAs (Decidable True)

instance (mc : MailCredential) : DecidablePred (Shows mc)
  | ⟨.get, .ok read⟩ => inferInstanceAs (Decidable (read = mc))
  | ⟨.apiGet, .ok read⟩ => inferInstanceAs (Decidable (read = mc))
  | ⟨.get, .error _⟩ | ⟨.apiGet, .error _⟩ | ⟨.getServiceAccount _ _, _⟩ | ⟨.guardOK, _⟩
  | ⟨.createSecret _, _⟩ | ⟨.patchSecret _, _⟩ | ⟨.generatePassword, _⟩ | ⟨.statusUpdate _, _⟩
  | ⟨.contextAlive, _⟩ => inferInstanceAs (Decidable True)

/-- Everything is there but the Secret, which may be written. -/
def emptyEnvironment : Environment :=
  ⟨fun _ _ => none, (true, []), fun _ _ => none, fun _ _ => none⟩

/-- The first reconcile of a new credential, and another one. -/
def firstReconcile : Cluster × ReconcileTrace × Except Bytes Int :=
  newCluster.reconciling .plain openReconciler 0 (lit "s3cr3t")

def secondReconcile : Cluster × ReconcileTrace × Except Bytes Int :=
  firstReconcile.1.reconciling .plain openReconciler 0 (lit "n3w")

theorem trigger_consumed_initial :
    writes firstReconcile.2.1 = [((lit "billing", lit "app-smtp"), some (lit "s3cr3t"))] ∧
      writes secondReconcile.2.1 = [] := by
  have hran : (reconcile .plain openReconciler 0).Ran firstReconcile.2.1 firstReconcile.2.2 :=
    (newCluster.round_reconciling Edited .plain openReconciler 0 (lit "s3cr3t")).ran
  have hran' : (reconcile .plain openReconciler 0).Ran secondReconcile.2.1 secondReconcile.2.2 :=
    (firstReconcile.1.round_reconciling Edited .plain openReconciler 0 (lit "n3w")).ran
  have hleaves : LeavesStatus firstReconcile.2.1 newCluster.object
      firstReconcile.1.object.status :=
    .inl ⟨{ newCluster.object with status := firstReconcile.1.object.status },
      by decide +kernel, by decide +kernel⟩
  have hsecond := (trigger_consumed hran).2.2 emptyEnvironment 0 newCluster.object
    firstReconcile.1.object.status (by decide +kernel) (by decide +kernel) (by decide +kernel)
    (by decide +kernel) hleaves 2 _ _ hran' (by decide +kernel) (by decide +kernel)
  exact ⟨by decide +kernel, hsecond.1⟩

/-- Libraries with a duration of half a second. -/
def hastyLibraries : CredentialLibraries :=
  { CredentialLibraries.plain with
    parseDuration := fun s => if s = lit "500ms" then some 500000000 else none }

/-- A credential with half a second of grace, once its password has been issued and a
rotation has been asked for. -/
def hastyCluster : Cluster :=
  let issued := (Cluster.reconciling hastyLibraries openReconciler 0 (lit "s3cr3t")
    ⟨{ newCluster.object with
        spec := { newCluster.object.spec with rotation := some ⟨[], lit "500ms"⟩ } },
      [], nofun, fun _ => none⟩).1
  issued.push { issued.object with
      resourceVersion := issued.object.resourceVersion + 1
      annotations := [( rotateAnnotation, lit "1")] }
    ⟨Nat.lt_succ_self _, rfl, rfl, rfl, le_refl _, fun _ => rfl⟩

/-- The same, with the Secret. -/
def settledEnvironment : Environment :=
  { emptyEnvironment with createSecret := fun _ _ => some ⟨.alreadyExists, []⟩ }

/-- Two reconciles of that credential, at one and the same time. -/
def hastyReconcile : Cluster × ReconcileTrace × Except Bytes Int :=
  hastyCluster.reconciling hastyLibraries openReconciler 200000000 (lit "n3w")

def hastyAgain : Cluster × ReconcileTrace × Except Bytes Int :=
  hastyReconcile.1.reconciling hastyLibraries openReconciler 200000000 (lit "0ther")

/-- The first of them rotates, and succeeds; the second finds the grace period over and
changes the status. -/
theorem hastyAgain_changes_status :
    (⟨⟨[], []⟩, true⟩ : MailCredentialValidator).validate hastyLibraries
      hastyCluster.object = none ∧
    (hastyReconcile.2.2.toBool = true ∧ writes hastyReconcile.2.1 ≠ []) ∧
    (∀ e ∈ hastyReconcile.2.1 ++ hastyAgain.2.1, settledEnvironment.Gives e) ∧
    (∀ e ∈ hastyAgain.2.1, Shows hastyReconcile.1.object e) ∧
    hastyReconcile.1.object.status.previous = some ⟨hashGenerated .plain (lit "s3cr3t"), 0⟩ ∧
    hastyAgain.1.object.status = { hastyReconcile.1.object.status with previous := none } := by
  decide +kernel

end Controller
end Sigillum
