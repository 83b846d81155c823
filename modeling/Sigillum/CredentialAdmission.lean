import Sigillum.FailedRotations

/-! # Webhook and controller on credentials

The rules for a `MailCredential` are written twice: the webhook collects every error
(`MailCredentialValidator.validate`), and the controller stops at the first problem
(`prepare`, and `rotate` for the mode).  `Accepts` is what the controller's rules come
down to.  An object that the webhook lets through meets it, and one that the webhook
rejects by a rule of both does not; so the reasons in the `Ready` condition agree with the
webhook (`webhook_controller_agree`).
-/
namespace Sigillum
open Runes Bytes Duration Interaction Credential Sigillum.Field

/-! ## The webhook -/

/-- The fields with rules about the namespace, the hash, the name and the rotation. -/
def ruledFields : List Bytes :=
  [child (lit "metadata") "namespace", child (lit "metadata") "name",
    child (lit "spec") "passwordHash", child (lit "spec") "rotation",
    child (child (lit "spec") "rotation") "interval",
    child (child (lit "spec") "rotation") "gracePeriod"]

/-- An error by one of these rules, or about the mode: `secretName` is required or
forbidden. -/
def Field.Error.Ruled (e : Field.Error) : Prop :=
  e.field ∈ ruledFields ∨
    e.field = child (lit "spec") "secretName" ∧ (e.type = .required ∨ e.type = .forbidden)

namespace Field

/-- None of the errors is by one of the rules. -/
def Unruled (errs : List Field.Error) : Prop := ∀ e ∈ errs, ¬ e.Ruled

theorem unruled_append {errs errs' : List Field.Error} :
    Unruled (errs ++ errs') ↔ Unruled errs ∧ Unruled errs' := List.forall_mem_append

theorem unruled_ite {bad : Prop} [Decidable bad] {e : Field.Error} (he : e.Ruled) :
    Unruled (if bad then [e] else []) ↔ ¬ bad := by
  split
  · rename_i hbad
    exact iff_of_false (fun h => h e List.mem_cons_self he) (not_not.mpr hbad)
  · rename_i hgood
    exact iff_of_true (fun _ hmem => absurd hmem List.not_mem_nil) hgood

theorem unruled_ite_nil {good : Prop} [Decidable good] {e : Field.Error} (he : e.Ruled) :
    Unruled (if good then [] else [e]) ↔ good := by
  rw [← ite_not, unruled_ite he, not_not]

/-- Invalid names of the Secret and of the ServiceAccount are the webhook's own rules. -/
theorem unruled_invalid {field value : Bytes} (msgs : List Bytes) (h : field ∉ ruledFields) :
    Unruled (msgs.map fun msg => invalid field value msg) := by
  intro e he
  obtain ⟨msg, -, rfl⟩ := List.mem_map.mp he
  rintro (hfield | ⟨-, htype | htype⟩)
  · exact h hfield
  · cases htype
  · cases htype

end Field

namespace Controller

/-- The reasons for an object that is not accepted. -/
def refusalReasons : List CredentialReason :=
  [.invalidConfiguration, .namespaceExcluded, .generatedModeDisabled]

/-- An object that meets the rules. -/
structure Accepts (L : CredentialLibraries) (exclusions : Exclusions) (generatedEnabled : Bool)
    (mc : MailCredential) : Prop where
  allowed : exclusions.excluded mc.ns = false
  ownHash : mc.spec.passwordHash ≠ [] →
    mc.spec.secretName = [] ∧ mc.spec.rotation = none ∧
      ∃ p, parseArgon2id L mc.spec.passwordHash = .ok p
  generated : mc.spec.passwordHash = [] →
    mc.spec.secretName ≠ [] ∧ generatedEnabled = true ∧ generatedNameError L mc.name = [] ∧
      ∃ settings, parseRotation L mc.spec.rotation = .ok settings

section Rules
variable {L : CredentialLibraries} {mc : MailCredential}

theorem unruled_validateOwnHash {spec : MailCredentialSpec} :
    Unruled (validateOwnHash L spec) ↔ spec.secretName = [] ∧ spec.rotation = none ∧
      ∃ p, parseArgon2id L spec.passwordHash = .ok p := by
  have hfields : child (lit "spec") "rotation" ∈ ruledFields ∧
      child (lit "spec") "passwordHash" ∈ ruledFields := by decide
  rw [validateOwnHash, unruled_append, unruled_append, unruled_ite (.inr ⟨rfl, .inr rfl⟩),
    unruled_ite (.inl hfields.1), not_not, Bool.not_eq_true, Option.isSome_eq_false_iff,
    Option.isNone_iff_eq_none, and_assoc]
  refine and_congr_right fun _ => and_congr_right fun _ => ?_
  cases parseArgon2id L spec.passwordHash with
  | ok p => exact iff_of_true (fun _ hmem => absurd hmem List.not_mem_nil) ⟨p, rfl⟩
  | error err =>
    refine iff_of_false (fun h => h _ List.mem_cons_self (.inl hfields.2)) ?_
    rintro ⟨p, hp⟩
    cases hp

/-- Settings that do not parse come with an error. -/
theorem parseRotation_error {rot : Option CredentialRotation} {errs : List RotationError}
    (h : parseRotation L rot = .error errs) : errs ≠ [] := by
  rintro rfl
  cases rot with
  | none => cases h
  | some rot =>
    cases hinterval : parseInterval L rot.interval <;>
      cases hgrace : parseGrace L rot.gracePeriod <;>
      simp [parseRotation, hinterval, hgrace] at h

theorem unruled_validateGenerated {v : MailCredentialValidator} :
    Unruled (validateGenerated L v mc) ↔ v.generatedEnabled = true ∧
      generatedNameError L mc.name = [] ∧
      ∃ settings, parseRotation L mc.spec.rotation = .ok settings := by
  have hname : child (lit "metadata") "name" ∈ ruledFields := by decide
  have hsecret : child (lit "spec") "secretName" ∉ ruledFields := by decide
  have hrotation : ∀ f : RotationField,
      child (child (lit "spec") "rotation") f.name ∈ ruledFields := by
    intro f
    cases f <;> decide
  rw [validateGenerated, unruled_append, unruled_append, unruled_append,
    unruled_ite_nil (.inr ⟨rfl, .inr rfl⟩), unruled_ite_nil (.inl hname),
    and_iff_left (unruled_invalid _ hsecret), and_assoc]
  refine and_congr_right fun _ => and_congr_right fun _ => ?_
  cases hparse : parseRotation L mc.spec.rotation with
  | ok settings => exact iff_of_true (fun _ hmem => absurd hmem List.not_mem_nil) ⟨settings, rfl⟩
  | error errs =>
    obtain ⟨e, rest, rfl⟩ := List.exists_cons_of_ne_nil (parseRotation_error hparse)
    refine iff_of_false (fun h => h _ List.mem_cons_self (.inl (hrotation e.field))) ?_
    rintro ⟨settings, hsettings⟩
    cases hsettings

/-- **The webhook's side of the rules**: no error is by one of them. -/
theorem unruled_errors_iff (v : MailCredentialValidator) (mc : MailCredential) :
    Unruled (v.errors L mc) ↔ Accepts L v.exclusions v.generatedEnabled mc := by
  have hns : child (lit "metadata") "namespace" ∈ ruledFields := by decide
  have haccount : child (lit "spec") "serviceAccountName" ∉ ruledFields ∧
      child (lit "spec") "serviceAccountName" ≠ child (lit "spec") "secretName" := by decide
  have hother : Unruled (if mc.spec.serviceAccountName = [] then
      [required (child (lit "spec") "serviceAccountName")
        (lit "the ServiceAccount the credential authenticates as")]
      else (L.isDNS1123Subdomain mc.spec.serviceAccountName).map fun msg =>
        invalid (child (lit "spec") "serviceAccountName") mc.spec.serviceAccountName msg) := by
    split
    · intro e he
      obtain rfl := List.mem_singleton.mp he
      rintro (hfield | ⟨hfield, -⟩)
      · exact haccount.1 hfield
      · exact haccount.2 hfield
    · exact unruled_invalid _ haccount.1
  rw [MailCredentialValidator.errors, unruled_append, unruled_append, and_iff_left hother,
    unruled_ite (.inl hns), Bool.not_eq_true]
  by_cases hhash : mc.spec.passwordHash = []
  · rw [if_neg (not_not.mpr hhash)]
    have hiff : Unruled (if mc.spec.secretName = [] then [required (child (lit "spec") "secretName")
        (lit "set secretName (generated mode) or passwordHash (bring your own hash)")]
        else validateGenerated L v mc) ↔ mc.spec.secretName ≠ [] ∧ v.generatedEnabled = true ∧
          generatedNameError L mc.name = [] ∧
          ∃ settings, parseRotation L mc.spec.rotation = .ok settings := by
      split
      · rename_i hname
        exact iff_of_false (fun h => h _ List.mem_cons_self (.inr ⟨rfl, .inl rfl⟩))
          (fun h => h.1 hname)
      · rename_i hname
        rw [unruled_validateGenerated, and_iff_right hname]
    rw [hiff]
    exact ⟨fun h => ⟨h.1, fun hne => absurd hhash hne, fun _ => h.2⟩,
      fun h => ⟨h.allowed, h.generated hhash⟩⟩
  · rw [if_pos hhash, unruled_validateOwnHash]
    exact ⟨fun h => ⟨h.1, fun _ => h.2, fun hnil => absurd hnil hhash⟩,
      fun h => ⟨h.allowed, h.ownHash hhash⟩⟩

theorem rotationSettings_eq_none_iff {rotation : Option CredentialRotation} :
    (rotationSettings L rotation).2 = none ↔
      ∃ settings, parseRotation L rotation = .ok settings := by
  unfold rotationSettings
  cases parseRotation L rotation <;> simp

theorem problem_generated_iff {r : Reconciler} (hexcluded : r.exclusions.excluded mc.ns = false)
    (hhash : mc.spec.passwordHash = []) :
    problem L r mc = none ↔ mc.spec.secretName ≠ [] ∧ generatedNameError L mc.name = [] ∧
      ∃ settings, parseRotation L mc.spec.rotation = .ok settings := by
  have hmode : mc.generated = true := by simp [MailCredential.generated, hhash]
  rw [problem, if_neg (by simp [hexcluded]), if_pos hmode, ← rotationSettings_eq_none_iff]
  by_cases hname : mc.spec.secretName = []
  · rw [if_pos hname]
    exact iff_of_false (fun h => by cases h) (fun h => h.1 hname)
  · rw [if_neg hname, and_iff_right hname]
    by_cases hlabel : generatedNameError L mc.name = []
    · rw [if_neg (not_not.mpr hlabel), and_iff_right hlabel, Option.map_eq_none_iff]
    · rw [if_pos hlabel]
      exact iff_of_false (fun h => by cases h) (fun h => hlabel h.1)

theorem problem_ownHash_iff {r : Reconciler} (hexcluded : r.exclusions.excluded mc.ns = false)
    (hhash : mc.spec.passwordHash ≠ []) :
    problem L r mc = none ↔ mc.spec.secretName = [] ∧ mc.spec.rotation = none ∧
      ∃ p, parseArgon2id L mc.spec.passwordHash = .ok p := by
  have hmode : mc.generated ≠ true := by simp [MailCredential.generated, hhash]
  rw [problem, if_neg (by simp [hexcluded]), if_neg hmode]
  cases parseArgon2id L mc.spec.passwordHash with
  | error err =>
    refine iff_of_false (fun h => by cases h) ?_
    rintro ⟨-, -, p, hp⟩
    cases hp
  | ok p => simp

/-- **The controller's side of the rules**: no problem, and a mode that is enabled. -/
theorem accepts_iff_problem (r : Reconciler) (mc : MailCredential) :
    Accepts L r.exclusions r.generatedEnabled mc ↔
      problem L r mc = none ∧ (mc.generated = true → r.generatedEnabled = true) := by
  cases hexcluded : r.exclusions.excluded mc.ns with
  | true =>
    refine iff_of_false (fun h => ?_) (fun h => ?_)
    · have hallowed := h.allowed
      rw [hexcluded] at hallowed
      cases hallowed
    · have hproblem := h.1
      rw [problem, if_pos hexcluded] at hproblem
      cases hproblem
  | false =>
    by_cases hhash : mc.spec.passwordHash = []
    · have hmode : mc.generated = true := by simp [MailCredential.generated, hhash]
      rw [problem_generated_iff hexcluded hhash]
      constructor
      · intro h
        obtain ⟨hname, hon, hlabel, hparse⟩ := h.generated hhash
        exact ⟨⟨hname, hlabel, hparse⟩, fun _ => hon⟩
      · rintro ⟨⟨hname, hlabel, hparse⟩, hon⟩
        exact ⟨hexcluded, fun hne => absurd hhash hne,
          fun _ => ⟨hname, hon hmode, hlabel, hparse⟩⟩
    · have hmode : mc.generated ≠ true := by simp [MailCredential.generated, hhash]
      rw [problem_ownHash_iff hexcluded hhash]
      exact ⟨fun h => ⟨h.ownHash hhash, fun hgenerated => absurd hgenerated hmode⟩,
        fun h => ⟨hexcluded, fun _ => h.1, fun hnil => absurd hnil hhash⟩⟩

end Rules

/-! ## The controller -/

/-- An answer that does not say that the ServiceAccount does not exist. -/
def AccountExists (e : Event Call Call.Answer) : Prop :=
  ∀ ns name err, e = ⟨.getServiceAccount ns name, some err⟩ → err.kind ≠ .notFound

section Reports
variable {L : CredentialLibraries} {P : Event Call Call.Answer → Prop} {r : Reconciler}
  {mc : MailCredential} {now : Int} {written : List SecretWrite} {d : Draft}
  {st : MailCredentialStatus}

/-- A problem is one of the refusals, and not that of a disabled mode. -/
theorem mem_refusalReasons_of_problem {p : CredentialReason × Bytes}
    (h : problem L r mc = some p) : p.1 ∈ refusalReasons := by
  have hreason : p.1 = .namespaceExcluded ∨ p.1 = .invalidConfiguration := by
    unfold problem at h
    split at h
    · exact .inl (congrArg Prod.fst (Option.some.inj h)).symm
    · split at h
      · split at h
        · exact .inr (congrArg Prod.fst (Option.some.inj h)).symm
        · split at h
          · exact .inr (congrArg Prod.fst (Option.some.inj h)).symm
          · obtain ⟨_, -, rfl⟩ := Option.map_eq_some_iff.mp h
            exact .inr rfl
      · split at h
        · exact .inr (congrArg Prod.fst (Option.some.inj h)).symm
        · split at h
          · exact .inr (congrArg Prod.fst (Option.some.inj h)).symm
          · cases h
  rcases hreason with hreason | hreason <;> rw [hreason] <;> decide

/-- What a draft says about an object that meets the rules. -/
theorem Drafted.of_accepts (h : Drafted L P r mc now written d)
    (haccepts : Accepts L r.exclusions r.generatedEnabled mc) :
    ∃ status reason, d.verdict = some (status, reason) ∧ reason ∉ refusalReasons := by
  obtain ⟨hproblem, hon⟩ := (accepts_iff_problem r mc).mp haccepts
  have hverdict : (prepare L r mc).verdict = none := by
    rw [prepare_eq, hproblem]
    rfl
  have hsettle : ∀ {d : Draft}, (d.verdict = none ∨ ∃ reason, d.verdict = some (.false, reason) ∧
      reason ∉ refusalReasons) →
      ∃ status reason, d.settle.verdict = some (status, reason) ∧ reason ∉ refusalReasons := by
    rintro d (hnone | ⟨reason, hsome, hother⟩)
    · refine ⟨.true, .ready, ?_, by decide⟩
      rw [Draft.settle, if_neg (by simp [hnone])]
    · refine ⟨.false, reason, ?_, hother⟩
      rw [Draft.settle, if_pos (by simp [hsome]), hsome]
  have hkeep : ∀ (reason : CredentialReason) (msg : Bytes), reason ∉ refusalReasons →
      ∃ status why, (((prepare L r mc).expire now).keepOrFail reason msg).settle.verdict =
        some (status, why) ∧ why ∉ refusalReasons := by
    intro reason msg hother
    refine hsettle ?_
    unfold Draft.keepOrFail
    split
    · exact .inl hverdict
    · exact .inr ⟨reason, rfl, hother⟩
  cases h with
  | refused hrefused =>
    rw [hverdict] at hrefused
    cases hrefused
  | noServiceAccount => exact ⟨_, _, rfl, by decide⟩
  | ownHash _ _ hmode =>
    refine ⟨.true, .bringYourOwnHash, ?_, by decide⟩
    rw [Draft.acceptOwnHash, if_neg (by simp [hverdict, hmode])]
  | @generated _ _ hmode outcome htried =>
    cases outcome with
    | disabled =>
      cases htried with
      | disabled hoff =>
        rw [hon hmode] at hoff
        cases hoff
    | notDue => exact hsettle (.inl hverdict)
    | written password => exact hsettle (.inl hverdict)
    | guardMissing msg => exact hkeep _ _ (by decide)
    | conflict => exact hkeep _ _ (by decide)
    | failed err => exact hkeep _ _ (by decide)

/-- Where the mode is disabled, nothing else comes of a rotation. -/
theorem Tried.eq_disabled {why : Option Trigger} {outcome : Outcome}
    (h : Tried P r mc why outcome) (hoff : r.generatedEnabled = false) : outcome = .disabled := by
  cases h with
  | disabled => rfl
  | notDue hon | guardMissing hon | created hon | patched hon | conflict hon | notCreated hon
  | notPatched hon =>
    rw [hoff] at hon
    cases hon

/-- What a draft says about an object that does not, if its ServiceAccount exists. -/
theorem Drafted.of_not_accepts (h : Drafted L AccountExists r mc now written d)
    (hrefuses : ¬ Accepts L r.exclusions r.generatedEnabled mc) :
    ∃ reason, d.verdict = some (.false, reason) ∧ reason ∈ refusalReasons := by
  cases hproblem : problem L r mc with
  | some p =>
    have hverdict : (prepare L r mc).verdict = some (.false, p.1) := by
      rw [prepare_eq, hproblem]
      rfl
    have hreason := mem_refusalReasons_of_problem hproblem
    cases h with
    | refused => exact ⟨p.1, hverdict, hreason⟩
    | noServiceAccount hnone | ownHash hnone | generated hnone =>
      rw [hverdict] at hnone
      cases hnone
  | none =>
    -- only the mode is left
    have hmode : mc.generated = true ∧ r.generatedEnabled = false := by
      by_contra hno
      refine hrefuses ((accepts_iff_problem r mc).mpr ⟨hproblem, fun hmode => ?_⟩)
      by_contra hoff
      exact hno ⟨hmode, by simpa using hoff⟩
    have hverdict : (prepare L r mc).verdict = none := by
      rw [prepare_eq, hproblem]
      rfl
    cases h with
    | refused hrefused =>
      rw [hverdict] at hrefused
      cases hrefused
    | noServiceAccount _ hget hkind => exact absurd hkind (hget _ _ _ rfl)
    | ownHash _ _ hown =>
      rw [hmode.1] at hown
      cases hown
    | generated _ _ _ htried =>
      obtain rfl := htried.eq_disabled hmode.2
      exact ⟨.generatedModeDisabled, rfl, by decide⟩

/-- The `Ready` condition of a status. -/
theorem Comes.ready (h : Comes L P r mc now written st) :
    ∃ d c, Drafted L P r mc now written d ∧ findStatusCondition st.conditions .ready = some c ∧
      (c.status, c.reason) = d.verdict.getD (.false, .ready) := by
  obtain ⟨d, guard, hdrafted, -, rfl⟩ := h
  obtain ⟨time, htime⟩ := conclude_ready mc now guard d
  exact ⟨d, _, hdrafted, htime, rfl⟩

/-- What a reconcile reports of an object: a status that it writes, or the one that the
object has and that it leaves as it is. -/
inductive Reported (t : ReconcileTrace) (res : Except Bytes Int) (mc : MailCredential) :
    MailCredentialStatus → Prop
  | written {new : MailCredential} {answer : Option APIError}
    (h : ⟨.statusUpdate new, answer⟩ ∈ t) : Reported t res mc new.status
  | kept {after : Int} (hres : res = .ok after) (h : Unreported t) : Reported t res mc mc.status

theorem Reported.comes {t : ReconcileTrace} {res : Except Bytes Int}
    (hst : Reported t res mc st) (h : (reconcile L r now).Ran t res) (hP : ∀ e ∈ t, P e)
    (hmc : decidedOn L now t = some mc) : ∃ written, Comes L P r mc now written st := by
  obtain ⟨hmeets, hends⟩ := h.keeps (reconcile_keeps L P r now) hP
  cases hst with
  | written hnew =>
    obtain ⟨before, after, rfl⟩ := List.append_of_mem hnew
    obtain ⟨⟨mc', hdecided, -, hcomes, -⟩, -⟩ := hmeets before after _ rfl
    obtain rfl := Option.some.inj ((decidedOn_append hdecided _).symm.trans hmc)
    exact ⟨_, hcomes⟩
  | kept hres hunreported => exact ⟨[], hends mc _ hmc hres hunreported⟩

end Reports

/-- **Webhook and controller accept the same credentials.**  Of an object that the webhook
lets through, no reconcile reports that it is misconfigured, excluded or of a disabled
mode; of one that it rejects by a rule of both, every reconcile reports one of these, if
the ServiceAccount exists. -/
theorem webhook_controller_agree (L : CredentialLibraries) (v : MailCredentialValidator)
    (r : Reconciler) (hexclusions : r.exclusions = v.exclusions)
    (henabled : r.generatedEnabled = v.generatedEnabled) (now : Int) {t : ReconcileTrace}
    {res : Except Bytes Int} (h : (reconcile L r now).Ran t res) {mc : MailCredential}
    (hmc : decidedOn L now t = some mc) {st : MailCredentialStatus}
    (hst : Reported t res mc st) :
    (v.validate L mc = none → ∃ c, findStatusCondition st.conditions .ready = some c ∧
      c.reason ∉ refusalReasons) ∧
    ∀ invalid, v.validate L mc = some invalid → (∃ e ∈ invalid.errors, e.Ruled) →
      (∀ e ∈ t, AccountExists e) →
        ∃ c, findStatusCondition st.conditions .ready = some c ∧ c.status = .false ∧
          c.reason ∈ refusalReasons := by
  have hrules := unruled_errors_iff (L := L) v mc
  rw [← hexclusions, ← henabled] at hrules
  rw [MailCredentialValidator.validate, newInvalid]
  constructor
  · intro hvalid
    have hnil : v.errors L mc = [] := by
      split at hvalid
      · rename_i hlength
        exact List.length_eq_zero_iff.mp hlength
      · cases hvalid
    have haccepts : Accepts L r.exclusions r.generatedEnabled mc :=
      hrules.mp (hnil ▸ fun _ he => absurd he List.not_mem_nil)
    obtain ⟨written, hcomes⟩ := hst.comes (P := fun _ => True) h (fun _ _ => trivial) hmc
    obtain ⟨d, c, hdrafted, hfind, hcond⟩ := hcomes.ready
    obtain ⟨status, reason, hverdict, hreason⟩ := hdrafted.of_accepts haccepts
    rw [hverdict] at hcond
    exact ⟨c, hfind, (Prod.mk.inj hcond).2 ▸ hreason⟩
  · rintro inv hinvalid ⟨e, he, hruled⟩ haccount
    have hmem : e ∈ v.errors L mc := by
      split at hinvalid
      · cases hinvalid
      · obtain rfl := Option.some.inj hinvalid
        exact he
    have hrefuses : ¬ Accepts L r.exclusions r.generatedEnabled mc :=
      fun haccepts => hrules.mpr haccepts e hmem hruled
    obtain ⟨written, hcomes⟩ := hst.comes h haccount hmc
    obtain ⟨d, c, hdrafted, hfind, hcond⟩ := hcomes.ready
    obtain ⟨reason, hverdict, hreason⟩ := hdrafted.of_not_accepts hrefuses
    rw [hverdict] at hcond
    obtain ⟨hstatus, hsame⟩ := Prod.mk.inj hcond
    exact ⟨c, hfind, hstatus, hsame ▸ hreason⟩

/-- A controller without generated credentials. -/
def disabledReconciler : Reconciler := ⟨⟨[], []⟩, false, lit "sigillum-smtp", 587⟩

/-- The answers for a generated credential whose ServiceAccount exists. -/
def disabledAnswer : Unit → (c : Call) → c.Answer × Unit
  | _, .get => (.ok generatedCredential, ())
  | _, .apiGet => (.ok generatedCredential, ())
  | _, .getServiceAccount _ _ => (none, ())
  | _, .guardOK => ((true, []), ())
  | _, .generatePassword => (.ok (lit "n3w"), ())
  | _, .createSecret _ => (none, ())
  | _, .patchSecret _ => (none, ())
  | _, .statusUpdate _ => (none, ())
  | _, .contextAlive => (true, ())

def disabledReconcile : ReconcileTrace × Except Bytes Int :=
  ((reconcile .plain disabledReconciler 0).run disabledAnswer () []).2

/-- The status that is written for it. -/
def disabledReport : MailCredentialStatus :=
  conclude generatedCredential 0 none (Outcome.apply .plain generatedCredential 0
    (rotationSettings .plain generatedCredential.spec.rotation).1.2
    ((prepare .plain disabledReconciler generatedCredential).expire 0) .disabled).settle

/-- What the webhook has against it. -/
def disabledError : Field.Error :=
  forbidden (child (lit "spec") "secretName") (lit ("generated credentials are disabled in this " ++
    "installation (credentials.enabled=false); set passwordHash instead"))

theorem webhook_controller_agree_disabled :
    MailCredentialValidator.validate .plain ⟨⟨[], []⟩, false⟩ generatedCredential =
        some ⟨lit "MailCredential", lit "app", [disabledError]⟩ ∧
      ∃ c, findStatusCondition disabledReport.conditions .ready = some c ∧ c.status = .false ∧
        c.reason ∈ refusalReasons := by
  have hran : (reconcile .plain disabledReconciler 0).Ran disabledReconcile.1
      disabledReconcile.2 := Prog.ran_run _ _ _
  have hmc : decidedOn .plain 0 disabledReconcile.1 = some generatedCredential := by
    decide +kernel
  have hreport : ⟨.statusUpdate { generatedCredential with status := disabledReport }, none⟩ ∈
      disabledReconcile.1 := by decide +kernel
  have hinvalid : MailCredentialValidator.validate .plain ⟨⟨[], []⟩, false⟩ generatedCredential =
      some ⟨lit "MailCredential", lit "app", [disabledError]⟩ := by decide +kernel
  have haccount : (disabledReconcile.1.all fun e => !accountFailed e) = true := by decide +kernel
  refine ⟨hinvalid, (webhook_controller_agree .plain ⟨⟨[], []⟩, false⟩ disabledReconciler rfl rfl 0
    hran hmc (.written hreport)).2 _ hinvalid
    ⟨disabledError, List.mem_cons_self, .inr ⟨rfl, .inr rfl⟩⟩ ?_⟩
  rintro e he ns name err rfl
  cases List.all_eq_true.mp haccount _ he

end Controller
end Sigillum
