import Sigillum.CredentialCluster

/-! # Failed rotations

A reconcile of a generated credential that writes no Secret leaves the hashes in the
status alone, whatever kept it from writing one: every password that is accepted before
is accepted after, as long as the credential is ready.  And it stays ready where there is
a password to fall back on and nothing but the guard or the Secret was the matter.
-/
namespace Sigillum
open Runes Bytes Duration Interaction Credential

namespace Controller

variable {L : CredentialLibraries} {P : Event Call Call.Answer → Prop} {r : Reconciler}
  {mc : MailCredential} {now : Int} {st : MailCredentialStatus}

/-! ## The hashes -/

/-- The hashes of a status are those of another; a previous one that has expired may be
dropped. -/
structure Unchanged (now : Int) (old new : MailCredentialStatus) : Prop where
  current : new.current = old.current
  secretName : new.secretName = old.secretName
  lastRotateRequest : new.lastRotateRequest = old.lastRotateRequest
  previous : new.previous = old.previous ∨
    new.previous = none ∧ ∃ prev, old.previous = some prev ∧ prev.validUntil ≤ now

theorem Unchanged.expire (old : MailCredentialStatus) (now : Int) :
    Unchanged now old { old with
      previous := old.previous.filter fun prev => now < prev.validUntil } := by
  refine ⟨rfl, rfl, rfl, ?_⟩
  rcases filter_validUntil_cases old.previous now with hlive | ⟨prev, hprev, hover, hnone⟩
  · exact .inl hlive
  · exact .inr ⟨hnone, prev, hprev, hover⟩

/-- What every draft without a Secret written has of the object's status. -/
theorem Drafted.unwritten {d : Draft} (h : Drafted L P r mc now [] d)
    (hmode : mc.generated = true)
    (hcur : ∀ cur, mc.status.current = some cur → isGeneratedHash cur.hash = true) :
    Unchanged now mc.status d.status ∧ d.status.username = username mc.name mc.ns := by
  have hprepared : preparedStatus r mc = (Draft.begin mc).status :=
    preparedStatus_of_generated hmode hcur
  have hbegin : Unchanged now mc.status (preparedStatus r mc) ∧
      (preparedStatus r mc).username = username mc.name mc.ns := by
    rw [hprepared]
    exact ⟨⟨rfl, rfl, rfl, .inl rfl⟩, rfl⟩
  generalize hwritten : ([] : List SecretWrite) = w at h
  cases h with
  | refused =>
    rw [prepare_eq]
    exact hbegin
  | noServiceAccount =>
    rw [Draft.noServiceAccount_status, prepare_eq]
    exact hbegin
  | ownHash _ _ hown =>
    rw [hmode] at hown
    cases hown
  | generated =>
    rw [Draft.settle_status, Outcome.apply_status hwritten.symm, expire_status, hprepared]
    have hexpire := Unchanged.expire mc.status now
    exact ⟨⟨rfl, rfl, rfl, hexpire.previous⟩, rfl⟩

theorem Comes.unwritten (h : Comes L P r mc now [] st) (hmode : mc.generated = true)
    (hcur : ∀ cur, mc.status.current = some cur → isGeneratedHash cur.hash = true) :
    Unchanged now mc.status st ∧ st.username = username mc.name mc.ns := by
  obtain ⟨d, guard, hdrafted, -, rfl⟩ := h
  obtain ⟨⟨hcurrent, hsecret, hrequest, hprevious⟩, hname⟩ := hdrafted.unwritten hmode hcur
  exact ⟨⟨hcurrent, hsecret, hrequest, hprevious⟩, hname⟩

/-! ## Readiness -/

/-- An answer that does not say that the ServiceAccount could not be read. -/
def Found (e : Event Call Call.Answer) : Prop :=
  ∀ ns name err, e ≠ ⟨.getServiceAccount ns name, some err⟩

/-- Nothing but the guard or the Secret can be the matter. -/
structure InOrder (L : CredentialLibraries) (r : Reconciler) (mc : MailCredential) : Prop where
  allowed : r.exclusions.excluded mc.ns = false
  secretName : mc.spec.secretName ≠ []
  named : generatedNameError L mc.name = []
  rotation : (rotationSettings L mc.spec.rotation).2 = none
  enabled : r.generatedEnabled = true

theorem InOrder.problem_eq_none (h : InOrder L r mc) (hmode : mc.generated = true) :
    problem L r mc = none := by
  rw [problem, if_neg (by simp [h.allowed]), if_pos hmode, if_neg h.secretName,
    if_neg (by simp [h.named]), h.rotation]
  rfl

/-- A password to fall back on keeps the credential up. -/
theorem Draft.settle_keepOrFail {d : Draft} (hnone : d.verdict = none)
    (hsome : d.status.current.isSome = true) (hname : d.status.secretName ≠ [])
    (reason : CredentialReason) (msg : Bytes) :
    (d.keepOrFail reason msg).settle.verdict = some (.true, .ready) := by
  rw [keepOrFail, if_pos ⟨hsome, hname⟩, settle, if_neg (by simp [hnone])]

theorem Drafted.ready {d : Draft} (h : Drafted L Found r mc now [] d) (horder : InOrder L r mc)
    (hmode : mc.generated = true)
    (hcur : ∀ cur, mc.status.current = some cur → isGeneratedHash cur.hash = true)
    (hsome : mc.status.current.isSome = true) (hname : mc.status.secretName ≠ []) :
    d.verdict = some (.true, .ready) := by
  have hverdict : (prepare L r mc).verdict = none := by
    rw [prepare_eq, horder.problem_eq_none hmode]
    rfl
  have hstatus : ((prepare L r mc).expire now).status.current = mc.status.current ∧
      ((prepare L r mc).expire now).status.secretName = mc.status.secretName := by
    rw [expire_status, preparedStatus_of_generated hmode hcur]
    exact ⟨rfl, rfl⟩
  have hkeep : ∀ reason msg,
      (((prepare L r mc).expire now).keepOrFail reason msg).settle.verdict =
        some (.true, .ready) :=
    Draft.settle_keepOrFail hverdict (hstatus.1 ▸ hsome) (hstatus.2 ▸ hname)
  generalize hwritten : ([] : List SecretWrite) = w at h
  cases h with
  | refused hrefused =>
    rw [hverdict] at hrefused
    cases hrefused
  | noServiceAccount _ hget => exact absurd rfl (hget _ _ _)
  | ownHash _ _ hown =>
    rw [hmode] at hown
    cases hown
  | @generated _ _ _ outcome htried =>
    cases outcome with
    | disabled =>
      cases htried with
      | disabled hoff =>
        rw [horder.enabled] at hoff
        cases hoff
    | notDue =>
      show (Draft.settle _).verdict = _
      rw [Draft.settle, if_neg]
      show ¬ (prepare L r mc).verdict.isSome = true
      rw [hverdict]
      exact Bool.false_ne_true
    | written password => cases hwritten
    | guardMissing msg => exact hkeep _ _
    | conflict => exact hkeep _ _
    | failed err => exact hkeep _ _

theorem Comes.reportsReady (h : Comes L Found r mc now [] st) (horder : InOrder L r mc)
    (hmode : mc.generated = true)
    (hcur : ∀ cur, mc.status.current = some cur → isGeneratedHash cur.hash = true)
    (hsome : mc.status.current.isSome = true) (hname : mc.status.secretName ≠ []) :
    ReportsReady st := by
  obtain ⟨d, guard, hdrafted, -, rfl⟩ := h
  obtain ⟨time, htime⟩ := conclude_ready mc now guard d
  refine ⟨_, htime, ?_⟩
  show (readyCondition mc now d).status = .true
  rw [readyCondition, hdrafted.ready horder hmode hcur hsome hname]
  rfl

/-- A ready credential is for the ServiceAccount of its spec. -/
theorem Comes.serviceAccountName (h : Comes L P r mc now [] st) (hready : ReportsReady st) :
    st.serviceAccountName = mc.spec.serviceAccountName := by
  obtain ⟨d, guard, -, -, rfl⟩ := h
  obtain ⟨c, hfind, hc⟩ := hready
  obtain ⟨time, htime⟩ := conclude_ready mc now guard d
  obtain rfl := Option.some.inj (htime.symm.trans hfind)
  show (if (readyCondition mc now d).status = .true then _ else _) = _
  rw [if_pos hc]

/-! ## Passwords -/

/-- What is checked of a password is not changed. -/
theorem Unchanged.checkGenerated {old new : MailCredential}
    (h : Unchanged now old.status new.status)
    (hresult : resultOf new = resultOf old) {password : Bytes} {res : Credential.Result}
    (hok : checkGenerated L old password now = .ok res) :
    checkGenerated L new password now = .ok res := by
  rw [checkGenerated_eq_ok, hresult, h.current]
  rcases checkGenerated_eq_ok.mp hok with hcurrent | ⟨hother, prev, hprev, hvalid, hverify, hres⟩
  · exact .inl hcurrent
  · -- a previous password that is accepted has not expired, so it was kept
    refine .inr ⟨hother, prev, ?_, hvalid, hverify, hres⟩
    rcases h.previous with hsame | ⟨-, prev', hprev', hlate⟩
    · rw [hsame, hprev]
    · rw [hprev] at hprev'
      obtain rfl := Option.some.inj hprev'
      exact absurd hvalid (not_lt.mpr hlate)

/-- An object with another status that keeps the hashes and is ready: a login that is
accepted with the old one is accepted with it. -/
theorem Unchanged.login (h : Unchanged now mc.status st)
    (hname : st.username = username mc.name mc.ns) (hmode : mc.generated = true)
    (hready : ReportsReady st) (haccount : st.serviceAccountName = mc.spec.serviceAccountName)
    {reader reader' : Reader} (hkeyed : reader.Keyed)
    (hnew : reader' mc.ns mc.name = .ok { mc with status := st }) {u password : Bytes}
    {cache cache' : ArgonCache} {later later' : Int} {res : Credential.Result}
    (hlookup : lookup reader u = .ok mc)
    (hcheck : (check L cache mc password now later).1 = .ok res) :
    lookup reader' u = .ok { mc with status := st } ∧
      (check L cache' { mc with status := st } password now later').1 = .ok res := by
  obtain ⟨ns, name, hparse, hget, -, hold⟩ := lookup_eq_ok.mp hlookup
  obtain ⟨rfl, rfl⟩ := hkeyed ns name mc hget
  have hu : u = username mc.name mc.ns := username_of_parseUsername hparse
  obtain ⟨c, hfind, hc⟩ := hready
  have husable : usable { mc with status := st } = true := by
    have hgenerated : MailCredential.generated { mc with status := st } = true := hmode
    rw [usable, hfind]
    simp [hc, haccount, hgenerated]
  constructor
  · exact lookup_eq_ok.mpr ⟨mc.ns, mc.name, hparse, hnew, husable, hname.trans hu.symm⟩
  · have hresult : resultOf { mc with status := st } = resultOf mc := by
      rw [resultOf, resultOf, hold]
      show Credential.Result.mk _ _ st.username _ _ _ = _
      rw [hname, hu]
    obtain ⟨hsome, hgenerated⟩ := check_eq_ok.mp hcheck
    rw [if_pos hmode] at hgenerated
    refine check_eq_ok.mpr ⟨hsome, ?_⟩
    rw [if_pos (show MailCredential.generated { mc with status := st } = true from hmode)]
    exact h.checkGenerated hresult hgenerated

/-- **A failed rotation changes nothing.**  A reconcile that writes no Secret reports the
hashes as they were, but for a previous one that has expired; it reports `Ready` where
there is a password to fall back on and only the guard or the Secret was the matter; and
a login that is accepted before is accepted after, if the credential is ready. -/
theorem failed_rotation_keeps (L : CredentialLibraries) (r : Reconciler) (now : Int)
    {t : ReconcileTrace} {res : Except Bytes Int} (h : (reconcile L r now).Ran t res)
    (hwrites : writes t = []) {mc new : MailCredential} {answer : Option APIError}
    (hmc : decidedOn L now t = some mc) (hmode : mc.generated = true)
    (hcur : ∀ cur, mc.status.current = some cur → isGeneratedHash cur.hash = true)
    (hnew : ⟨.statusUpdate new, answer⟩ ∈ t) :
    new = { mc with status := new.status } ∧ Unchanged now mc.status new.status ∧
      (InOrder L r mc → (∀ e ∈ t, Found e) → mc.status.current.isSome = true →
        mc.status.secretName ≠ [] → ReportsReady new.status) ∧
      ∀ (reader reader' : Reader) (u password : Bytes) (cache cache' : ArgonCache)
        (later later' : Int) (login : Credential.Result), reader.Keyed →
        lookup reader u = .ok mc → (check L cache mc password now later).1 = .ok login →
        reader' mc.ns mc.name = .ok new → ReportsReady new.status →
          lookup reader' u = .ok new ∧ (check L cache' new password now later').1 = .ok login := by
  obtain ⟨before, after, rfl⟩ := List.append_of_mem hnew
  have hbefore : writes before = [] := by
    rw [writes, List.filterMap_append] at hwrites
    exact (List.append_eq_nil_iff.mp hwrites).1
  -- what holds of all answers can be used for the status; twice below
  have hcalled : ∀ P : Event Call Call.Answer → Prop,
      (∀ e ∈ before ++ ⟨.statusUpdate new, answer⟩ :: after, P e) →
        new = { mc with status := new.status } ∧ Comes L P r mc now [] new.status := by
    intro P hP
    obtain ⟨hmeets, -⟩ := h.keeps (reconcile_keeps L P r now) hP
    obtain ⟨⟨mc', hdecided, honto, hcomes, -⟩, -⟩ := hmeets before after _ rfl
    obtain rfl := Option.some.inj ((decidedOn_append hdecided _).symm.trans hmc)
    rw [hbefore] at hcomes
    -- a status goes onto a newer object only once a Secret has been written
    rcases honto with ⟨-, hsame⟩ | ⟨hwritten, -⟩
    · exact ⟨hsame, hcomes⟩
    · exact absurd hbefore hwritten
  obtain ⟨hsame, hcomes⟩ := hcalled (fun _ => True) fun _ _ => trivial
  obtain ⟨hunchanged, hname⟩ := hcomes.unwritten hmode hcur
  refine ⟨hsame, hunchanged, ?_, ?_⟩
  · intro horder hfound hsome hsecret
    exact (hcalled Found hfound).2.reportsReady horder hmode hcur hsome hsecret
  · intro reader reader' u password cache cache' later later' login
      hkeyed hlookup hcheck hget hready
    have haccount := hcomes.serviceAccountName hready
    rw [hsame] at hget ⊢
    exact hunchanged.login hname hmode hready haccount hkeyed hget hlookup hcheck

/-- A credential with a password, of which a new one is asked for. -/
def rotatedCredential : MailCredential :=
  { generatedCredential with annotations := [( rotateAnnotation, lit "1")] }

/-- The answers where the guard is missing. -/
def unguardedAnswer : Unit → (c : Call) → c.Answer × Unit
  | _, .get => (.ok rotatedCredential, ())
  | _, .apiGet => (.ok rotatedCredential, ())
  | _, .getServiceAccount _ _ => (none, ())
  | _, .guardOK => ((false, lit "policy not found"), ())
  | _, .generatePassword => (.ok (lit "n3w"), ())
  | _, .createSecret _ => (none, ())
  | _, .patchSecret _ => (none, ())
  | _, .statusUpdate _ => (none, ())
  | _, .contextAlive => (true, ())

/-- A reconcile of it. -/
def unguardedReconcile : ReconcileTrace × Except Bytes Int :=
  ((reconcile .plain openReconciler 0).run unguardedAnswer () []).2

/-- The object with the status it reports. -/
def unguardedReport : MailCredential :=
  (unguardedReconcile.1.findSome? fun e => match e.1 with
    | .statusUpdate mc => some mc
    | _ => none).getD rotatedCredential

/-- The ServiceAccount could not be read. -/
def accountFailed : Event Call Call.Answer → Bool
  | ⟨.getServiceAccount _ _, some _⟩ => true
  | _ => false

theorem failed_rotation_keeps_unguarded :
    due .plain openReconciler rotatedCredential 0 = some .rotationRequested ∧
      Unchanged 0 rotatedCredential.status unguardedReport.status ∧
      ReportsReady unguardedReport.status := by
  have hran : (reconcile .plain openReconciler 0).Ran unguardedReconcile.1 unguardedReconcile.2 :=
    Prog.ran_run _ _ _
  have hcur : ∀ cur, rotatedCredential.status.current = some cur →
      isGeneratedHash cur.hash = true := by
    rintro cur ⟨⟩
    decide +kernel
  have hnew : ⟨.statusUpdate unguardedReport, none⟩ ∈ unguardedReconcile.1 := by decide +kernel
  obtain ⟨-, hunchanged, hready, -⟩ := failed_rotation_keeps .plain openReconciler 0 hran
    (by decide +kernel) (by decide +kernel) (by decide +kernel) hcur hnew
  refine ⟨by decide +kernel, hunchanged, hready ?_ ?_ (by decide +kernel) (by decide +kernel)⟩
  · exact ⟨by decide +kernel, by decide +kernel, by decide +kernel, by decide +kernel, rfl⟩
  · have hfound : (unguardedReconcile.1.all fun e => !accountFailed e) = true := by decide +kernel
    rintro e he ns name err rfl
    cases List.all_eq_true.mp hfound _ he

end Controller
end Sigillum
