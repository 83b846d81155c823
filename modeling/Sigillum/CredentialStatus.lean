import Sigillum.ReconcileTraces

/-! # The statuses of a credential

What the statuses a reconcile can come to (`Comes`) say: where the hashes of the two
passwords come from, and what a `Ready` condition stands for.  `problem` and
`preparedStatus` take `prepare` apart: what is wrong with an object depends on its spec
alone.
-/
namespace Sigillum
open Runes Bytes Duration Interaction Credential

/-! ## What the API server keeps -/

namespace Duration

/-- A `metav1.Time` is kept in whole seconds. -/
def wholeSeconds (time : Int) : Int := time / second * second

theorem lt_wholeSeconds_add (time : Int) : time < wholeSeconds time + second := by
  have h := Int.lt_ediv_add_one_mul_self time (show 0 < second by decide)
  rw [Int.add_mul, Int.one_mul] at h
  exact h

end Duration

def CredentialHash.stored (cur : CredentialHash) : CredentialHash :=
  { cur with createdAt := wholeSeconds cur.createdAt }

def PreviousCredentialHash.stored (prev : PreviousCredentialHash) : PreviousCredentialHash :=
  { prev with validUntil := wholeSeconds prev.validUntil }

def CredentialCondition.stored (c : CredentialCondition) : CredentialCondition :=
  { c with lastTransitionTime := wholeSeconds c.lastTransitionTime }

/-- A status as it is read back. -/
def MailCredentialStatus.stored (st : MailCredentialStatus) : MailCredentialStatus :=
  { st with
    current := st.current.map CredentialHash.stored
    previous := st.previous.map PreviousCredentialHash.stored
    conditions := st.conditions.map CredentialCondition.stored }

namespace Controller

/-! ## Before anything is looked up -/

section Prepare
variable (L : CredentialLibraries) (r : Reconciler) (mc : MailCredential)

/-- What is wrong with an object. -/
def problem : Option (CredentialReason × Bytes) :=
  if r.exclusions.excluded mc.ns then
    some (.namespaceExcluded, lit "namespace " ++ mc.ns ++ lit " may not hold mail credentials")
  else if mc.generated then
    if mc.spec.secretName = [] then some (.invalidConfiguration, lit
      "set spec.secretName (generated mode) or spec.passwordHash (bring your own hash)")
    else if generatedNameError L mc.name ≠ [] then
      some (.invalidConfiguration, generatedNameError L mc.name)
    else (rotationSettings L mc.spec.rotation).2.map (.invalidConfiguration, ·)
  else match parseArgon2id L mc.spec.passwordHash with
    | .error err => some (.invalidConfiguration, lit "spec.passwordHash: " ++ err)
    | .ok _ =>
      if mc.spec.secretName ≠ [] ∨ mc.spec.rotation.isSome then
        some (.invalidConfiguration, lit
          "spec.passwordHash cannot be combined with spec.secretName or spec.rotation")
      else none

/-- The status once the hashes of the other mode are dropped. -/
def preparedStatus : MailCredentialStatus :=
  let st := (Draft.begin mc).status
  if r.exclusions.excluded mc.ns then st
  else if mc.generated then
    if st.current.any fun cur => !isGeneratedHash cur.hash then
      { st with current := none, previous := none }
    else st
  else { st with secretName := [], current := none, previous := none }

theorem prepare_eq : prepare L r mc = ⟨preparedStatus r mc, ((problem L r mc).map Prod.snd).getD [],
    (problem L r mc).map fun p => (.false, p.1)⟩ := by
  unfold prepare problem preparedStatus
  cases hexcluded : r.exclusions.excluded mc.ns with
  | true => simp [Draft.exclude, hexcluded, Draft.fail, Draft.ownHash, Draft.settings]
  | false =>
    cases hmode : mc.generated with
    | false =>
      cases hparse : parseArgon2id L mc.spec.passwordHash with
      | error err =>
        simp [Draft.exclude, hexcluded, Draft.begin, Draft.fail, Draft.ownHash, hmode, hparse,
          Draft.settings]
      | ok p =>
        by_cases hboth : mc.spec.secretName ≠ [] ∨ mc.spec.rotation.isSome = true
        · simp [Draft.exclude, hexcluded, Draft.begin, Draft.fail, Draft.ownHash, hmode, hparse,
            Draft.settings, hboth]
        · simp [Draft.exclude, hexcluded, Draft.begin, Draft.ownHash, hmode, hparse,
            Draft.settings, hboth]
    | true =>
      have hstart : ((Draft.begin mc).exclude r mc).ownHash L mc = Draft.begin mc := by
        simp [Draft.exclude, hexcluded, Draft.ownHash, hmode]
      rw [hstart]
      unfold Draft.settings
      by_cases hforeign : mc.status.current.any (fun cur => !isGeneratedHash cur.hash) = true
      all_goals
        by_cases hname : mc.spec.secretName = []
        · simp [Draft.begin, hmode, hname, Draft.fail, hforeign]
        · by_cases hlabel : generatedNameError L mc.name = []
          · cases (rotationSettings L mc.spec.rotation).2 <;>
              simp [Draft.begin, hmode, hname, hlabel, Draft.fail, hforeign]
          · simp [Draft.begin, hmode, hname, hlabel, Draft.fail, hforeign]

variable {L r mc}

/-- An object in generated mode that nothing is wrong with. -/
theorem of_problem_eq_none (h : problem L r mc = none) (hmode : mc.generated = true) :
    r.exclusions.excluded mc.ns = false ∧ mc.spec.secretName ≠ [] ∧
      (rotationSettings L mc.spec.rotation).2 = none := by
  unfold problem at h
  rw [if_pos hmode] at h
  split at h
  · cases h
  · rename_i hexcluded
    split at h
    · cases h
    · rename_i hname
      split at h
      · cases h
      · exact ⟨by simpa using hexcluded, hname, Option.map_eq_none_iff.mp h⟩

/-- An object with a hash of the user's own that nothing is wrong with. -/
theorem parseArgon2id_of_problem_eq_none (h : problem L r mc = none)
    (hmode : mc.generated = false) :
    r.exclusions.excluded mc.ns = false ∧ ∃ p, parseArgon2id L mc.spec.passwordHash = .ok p := by
  unfold problem at h
  split at h
  · cases h
  · rename_i hexcluded
    rw [if_neg (by simp [hmode])] at h
    split at h
    · cases h
    · rename_i p hp
      exact ⟨by simpa using hexcluded, p, hp⟩

/-- Preparing the status drops the current hash or leaves it alone. -/
theorem preparedStatus_current (r : Reconciler) (mc : MailCredential) :
    (preparedStatus r mc).current = none ∨
      (preparedStatus r mc).current = mc.status.current ∧
        (preparedStatus r mc).secretName = mc.status.secretName := by
  unfold preparedStatus
  dsimp only
  split
  · exact .inr ⟨rfl, rfl⟩
  · split
    · split
      · exact .inl rfl
      · exact .inr ⟨rfl, rfl⟩
    · exact .inl rfl

/-- In generated mode, a current hash that is left is a generated one. -/
theorem isGeneratedHash_of_preparedStatus (hexcluded : r.exclusions.excluded mc.ns = false)
    (hmode : mc.generated = true) {cur : CredentialHash}
    (hcur : (preparedStatus r mc).current = some cur) : isGeneratedHash cur.hash = true := by
  unfold preparedStatus at hcur
  simp only [hexcluded, hmode, Bool.false_eq_true, if_false, if_true] at hcur
  split at hcur
  · cases hcur
  · rename_i hforeign
    have hstatus : mc.status.current = some cur := hcur
    simpa [Draft.begin, hstatus] using hforeign

/-- In generated mode, generated hashes are left alone. -/
theorem preparedStatus_of_generated (hmode : mc.generated = true)
    (hcur : ∀ cur, mc.status.current = some cur → isGeneratedHash cur.hash = true) :
    preparedStatus r mc = (Draft.begin mc).status := by
  have hforeign : (Draft.begin mc).status.current.any (fun cur => !isGeneratedHash cur.hash) =
      false := by
    rw [Option.any_eq_false]
    intro cur hmem
    simpa using hcur cur hmem
  unfold preparedStatus
  simp [hmode, hforeign]

end Prepare

/-! ## Drafts -/

section Drafts
variable {d : Draft}

@[simp] theorem Draft.fail_status (reason : CredentialReason) (msg : Bytes) :
    (d.fail reason msg).status = d.status := rfl

@[simp] theorem Draft.noServiceAccount_status (mc : MailCredential) :
    (d.noServiceAccount mc).status = d.status := rfl

@[simp] theorem Draft.keepOrFail_status (reason : CredentialReason) (msg : Bytes) :
    (d.keepOrFail reason msg).status = d.status := by
  unfold keepOrFail
  split <;> rfl

@[simp] theorem Draft.settle_status : d.settle.status = d.status := by
  unfold settle
  split <;> rfl

/-- Where no Secret was written, the status stays as it is. -/
theorem Outcome.apply_status {L : CredentialLibraries} {mc : MailCredential} {now grace : Int}
    {outcome : Outcome} (h : outcome.writes mc = []) :
    (outcome.apply L mc now grace d).status = d.status := by
  cases outcome with
  | written password => cases h
  | _ => simp [Outcome.apply]

/-- A draft that is kept up though a rotation failed has a password to fall back on. -/
theorem Draft.usable_of_keepOrFail {reason why : CredentialReason} {msg : Bytes}
    (h : (d.keepOrFail reason msg).settle.verdict = some (.true, why)) :
    d.status.current.isSome = true ∧ d.status.secretName ≠ [] := by
  unfold keepOrFail at h
  split at h
  · assumption
  · simp [Draft.settle, Draft.fail] at h

end Drafts

section Reached
variable {L : CredentialLibraries} {P : Event Call Call.Answer → Prop} {r : Reconciler}
  {mc : MailCredential} {now : Int} {written : List SecretWrite} {d : Draft}
  {st : MailCredentialStatus}

theorem problem_of_verdict (h : (prepare L r mc).verdict = none) : problem L r mc = none := by
  rw [prepare_eq] at h
  exact Option.map_eq_none_iff.mp h

/-- A previous password is kept, or dropped once its time is over. -/
theorem filter_validUntil_cases (previous : Option PreviousCredentialHash) (now : Int) :
    (previous.filter fun prev => now < prev.validUntil) = previous ∨
      ∃ prev, previous = some prev ∧ prev.validUntil ≤ now ∧
        (previous.filter fun prev => now < prev.validUntil) = none := by
  cases previous with
  | none => exact .inl rfl
  | some prev =>
    by_cases hlate : prev.validUntil ≤ now
    · refine .inr ⟨prev, rfl, hlate, ?_⟩
      rw [Option.filter_some, if_neg (by simpa using hlate)]
    · refine .inl ?_
      rw [Option.filter_some, if_pos (by simpa using hlate)]

theorem expire_status (L : CredentialLibraries) (r : Reconciler) (mc : MailCredential) (now : Int) :
    ((prepare L r mc).expire now).status =
    { preparedStatus r mc with
      previous := (preparedStatus r mc).previous.filter fun prev => now < prev.validUntil } := by
  rw [prepare_eq]
  rfl

/-- Where no password is due, there is one in the Secret the spec names. -/
theorem of_rotationDue_eq_none {interval : Int} (h : rotationDue mc now interval = none) :
    ∃ cur, mc.status.current = some cur ∧ mc.status.secretName = mc.spec.secretName := by
  unfold rotationDue at h
  split at h
  · cases h
  · rename_i cur hcur
    split at h
    · cases h
    · rename_i hname
      exact ⟨cur, hcur, not_not.mp hname⟩

/-- **A generated credential that is ready has a password**: a generated hash, and the
name of the Secret. -/
theorem Drafted.of_ready (h : Drafted L P r mc now written d) (hmode : mc.generated = true)
    {reason : CredentialReason} (hready : d.verdict = some (.true, reason)) :
    (∃ cur, d.status.current = some cur ∧ isGeneratedHash cur.hash = true) ∧
      d.status.secretName ≠ [] := by
  cases h with
  | refused =>
    rw [prepare_eq] at hready
    simp at hready
  | noServiceAccount => cases hready
  | ownHash _ _ hown => simp [hmode] at hown
  | @generated hverdict _ _ outcome htried =>
    obtain ⟨hexcluded, hname, -⟩ := of_problem_eq_none (problem_of_verdict hverdict) hmode
    -- what is left of an earlier password is a generated hash
    have hkept : ((prepare L r mc).expire now).status.current.isSome = true →
        ∃ cur, ((prepare L r mc).expire now).status.current = some cur ∧
          isGeneratedHash cur.hash = true := by
      intro hsome
      obtain ⟨cur, hcur⟩ := Option.isSome_iff_exists.mp hsome
      refine ⟨cur, hcur, isGeneratedHash_of_preparedStatus hexcluded hmode ?_⟩
      rw [expire_status] at hcur
      exact hcur
    have hfallback : ∀ {why : CredentialReason} {msg : Bytes},
        (((prepare L r mc).expire now).keepOrFail why msg).settle.verdict = some (.true, reason) →
        (∃ cur, (((prepare L r mc).expire now).keepOrFail why msg).status.current = some cur ∧
          isGeneratedHash cur.hash = true) ∧
        (((prepare L r mc).expire now).keepOrFail why msg).status.secretName ≠ [] := by
      intro why msg hup
      obtain ⟨hsome, hne⟩ := Draft.usable_of_keepOrFail hup
      rw [Draft.keepOrFail_status]
      exact ⟨hkept hsome, hne⟩
    rw [Draft.settle_status]
    cases outcome with
    | disabled => cases hready
    | written password =>
      exact ⟨⟨_, rfl, isGeneratedHash_hashGenerated L password⟩, hname⟩
    | notDue =>
      cases htried with
      | notDue _ hwhy =>
        obtain ⟨cur, hcur, hsame⟩ := of_rotationDue_eq_none hwhy
        exact ⟨hkept (Option.isSome_iff_exists.mpr ⟨cur, hcur⟩), hsame ▸ hname⟩
    | guardMissing msg => exact hfallback hready
    | conflict => exact hfallback hready
    | failed err => exact hfallback hready

/-! ## Conditions -/

theorem find_setCondition_self (conds : List CredentialCondition) (new : CredentialCondition) :
    ∃ time, findStatusCondition (setCondition conds new) new.type =
      some { new with lastTransitionTime := time } := by
  induction conds with
  | nil => exact ⟨new.lastTransitionTime, by simp [setCondition, findStatusCondition]⟩
  | cons c rest ih =>
    unfold setCondition
    split
    · rename_i htype
      split
      · exact ⟨c.lastTransitionTime, by simp [findStatusCondition]⟩
      · exact ⟨new.lastTransitionTime, by simp [findStatusCondition]⟩
    · rename_i htype
      obtain ⟨time, htime⟩ := ih
      refine ⟨time, ?_⟩
      rw [findStatusCondition, List.find?_cons_of_neg (by simpa using htype)]
      exact htime

theorem find_stored (conds : List CredentialCondition) (type : ConditionType) :
    findStatusCondition (conds.map CredentialCondition.stored) type =
      (findStatusCondition conds type).map CredentialCondition.stored := by
  rw [findStatusCondition, List.find?_map]
  rfl

/-- The `Ready` condition a status is concluded with. -/
theorem conclude_ready (mc : MailCredential) (now : Int) (guard : Option (Bool × Bytes))
    (d : Draft) : ∃ time, findStatusCondition (conclude mc now guard d).conditions .ready =
      some { readyCondition mc now d with lastTransitionTime := time } :=
  find_setCondition_self _ (readyCondition mc now d)

/-- A status that reports `Ready=True`. -/
def ReportsReady (st : MailCredentialStatus) : Prop :=
  ∃ c, findStatusCondition st.conditions .ready = some c ∧ c.status = .true

/-- A status with the hash of a generated password and the name of its Secret. -/
def HasPassword (st : MailCredentialStatus) : Prop :=
  (∃ cur, st.current = some cur ∧ isGeneratedHash cur.hash = true) ∧ st.secretName ≠ []

theorem Comes.hasPassword (h : Comes L P r mc now written st) (hmode : mc.generated = true)
    (hready : ReportsReady st) : HasPassword st := by
  obtain ⟨d, guard, hdrafted, -, rfl⟩ := h
  obtain ⟨c, hfind, hc⟩ := hready
  obtain ⟨time, htime⟩ := conclude_ready mc now guard d
  obtain rfl := Option.some.inj (htime.symm.trans hfind)
  cases hverdict : d.verdict with
  | none => simp [readyCondition, hverdict] at hc
  | some verdict =>
    obtain ⟨status, reason⟩ := verdict
    obtain rfl : status = .true := by simpa [readyCondition, hverdict] using hc
    exact hdrafted.of_ready hmode hverdict

/-- A condition is of the generation the status was made for. -/
theorem Comes.observedGeneration (h : Comes L P r mc now written st) {c : CredentialCondition}
    (hfind : findStatusCondition st.conditions .ready = some c) :
    c.observedGeneration = mc.generation := by
  obtain ⟨d, guard, -, -, rfl⟩ := h
  obtain ⟨time, htime⟩ := conclude_ready mc now guard d
  obtain rfl := Option.some.inj (htime.symm.trans hfind)
  rfl

/-! ## Hashes -/

/-- Without a Secret written, the current hash is the one of before, or none, or one of
the user's own. -/
theorem Comes.current_of_unwritten (h : Comes L P r mc now [] st) :
    st.current = none ∨
      (st.current = mc.status.current ∧ st.secretName = mc.status.secretName) ∨
      ∃ cur, st.current = some cur ∧ isGeneratedHash cur.hash = false ∧ st.secretName = [] := by
  obtain ⟨d, guard, hdrafted, -, rfl⟩ := h
  change d.status.current = none ∨
      (d.status.current = mc.status.current ∧ d.status.secretName = mc.status.secretName) ∨
      ∃ cur, d.status.current = some cur ∧ isGeneratedHash cur.hash = false ∧
        d.status.secretName = []
  have hprepared := preparedStatus_current r mc
  generalize hwritten : ([] : List SecretWrite) = w at hdrafted
  cases hdrafted with
  | refused =>
    rw [prepare_eq]
    exact hprepared.imp_right .inl
  | noServiceAccount =>
    rw [Draft.noServiceAccount_status, prepare_eq]
    exact hprepared.imp_right .inl
  | ownHash hverdict _ hmode =>
    obtain ⟨hexcluded, p, hparse⟩ :=
      parseArgon2id_of_problem_eq_none (problem_of_verdict hverdict) hmode
    refine .inr (.inr ?_)
    rw [Draft.acceptOwnHash, if_neg (by simp [hverdict, hmode])]
    refine ⟨_, rfl, ?_, ?_⟩
    · simpa using isGeneratedHash_of_parseArgon2id hparse []
    · rw [prepare_eq]
      simp [preparedStatus, hexcluded, hmode]
  | @generated _ _ _ outcome _ =>
    rw [Draft.settle_status, Outcome.apply_status hwritten.symm, expire_status]
    exact hprepared.imp_right .inl

/-- With a Secret written, the current hash is that of its password. -/
theorem Comes.current_of_written (h : Comes L P r mc now written st) (hwritten : written ≠ []) :
    ∃ password, written = [((mc.ns, mc.spec.secretName), some password)] ∧
      mc.generated = true ∧ st.current = some ⟨hashGenerated L password, now⟩ ∧
      st.secretName = mc.spec.secretName ∧
      st.previous = retire (preparedStatus r mc) now (rotationSettings L mc.spec.rotation).1.2 := by
  obtain ⟨d, guard, hdrafted, -, rfl⟩ := h
  cases hdrafted with
  | refused => exact absurd rfl hwritten
  | noServiceAccount => exact absurd rfl hwritten
  | ownHash => exact absurd rfl hwritten
  | @generated _ _ hmode outcome _ =>
    cases outcome with
    | written password =>
      refine ⟨password, rfl, hmode, ?_, ?_, ?_⟩
      · change (Draft.settle _).status.current = _
        rw [Draft.settle_status]
        rfl
      · change (Draft.settle _).status.secretName = _
        rw [Draft.settle_status]
        rfl
      · change (Draft.settle _).status.previous = _
        rw [Draft.settle_status]
        simp only [Outcome.apply, expire_status]
        rfl
    | _ => exact absurd rfl hwritten

end Reached

end Controller
end Sigillum
