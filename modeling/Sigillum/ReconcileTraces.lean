import Sigillum.CredentialController

/-! # What a reconcile does

Every call of `Reconcile`, with what was done before it.  A reconcile decides on one
object (`decidedOn`), writes at most one Secret and reports a status only after that;
the status is one of those in `Drafted`.  `Protocol` puts this down call by call, for
whatever answers are in `P`, and `reconcile_keeps` is the one place where the program
is walked through.
-/
namespace Sigillum
open Runes Bytes Duration Interaction Credential

namespace Controller

abbrev ReconcileTrace := Trace Call Call.Answer

/-! ## Reading a trace -/

/-- A Secret, by namespace and name, and the password that was put into it. -/
abbrev SecretWrite := (Bytes × Bytes) × Option Bytes

/-- The Secret an event wrote. -/
def wrote : Event Call Call.Answer → Option SecretWrite
  | ⟨.createSecret s, none⟩ => some ((s.ns, s.name), s.data.lookup (lit "password"))
  | ⟨.patchSecret p, none⟩ => some ((p.ns, p.name), p.data.lookup (lit "password"))
  | _ => none

/-- The Secrets written so far. -/
def writes (t : ReconcileTrace) : List SecretWrite := t.filterMap wrote

theorem writes_concat (t : ReconcileTrace) (e : Event Call Call.Answer) :
    writes (t ++ [e]) = writes t ++ (wrote e).toList := by
  rw [writes, List.filterMap_append]
  cases h : wrote e <;> simp [writes, h]

theorem writes_concat_of_nil {t : ReconcileTrace} (h : writes t = [])
    (e : Event Call Call.Answer) : writes (t ++ [e]) = (wrote e).toList := by
  rw [writes_concat, h, List.nil_append]

/-- No status has been written so far. -/
def Unreported (t : ReconcileTrace) : Prop := ∀ e ∈ t, ∀ mc, e.1 ≠ .statusUpdate mc

/-- A status update that the API server confirmed. -/
def confirmed : Event Call Call.Answer → Bool
  | ⟨.statusUpdate _, none⟩ => true
  | _ => false

variable (L : CredentialLibraries)

/-- The object a reconcile decides on: the cached one, or one read afresh. -/
def decidedOn (now : Int) : ReconcileTrace → Option MailCredential
  | ⟨.get, .ok cached⟩ :: t =>
    if rotationLooksDue L cached now then
      match t with
      | ⟨.apiGet, .ok fresh⟩ :: _ => some fresh
      | _ => none
    else some cached
  | _ => none

variable {L}

theorem decidedOn_append {now : Int} {t : ReconcileTrace} {mc : MailCredential}
    (h : decidedOn L now t = some mc) (t' : ReconcileTrace) :
    decidedOn L now (t ++ t') = some mc := by
  unfold decidedOn at h
  split at h
  · rename_i cached t
    split at h
    · rename_i hdue
      split at h
      · simpa [decidedOn, hdue] using h
      · cases h
    · rename_i hdue
      simpa [decidedOn, hdue] using h
  · cases h

/-- That object was read from the API server, or it was cached and nothing looked due. -/
theorem read_of_decidedOn {now : Int} {t : ReconcileTrace} {mc : MailCredential}
    (h : decidedOn L now t = some mc) :
    (∃ cached t', t = ⟨.get, .ok cached⟩ :: ⟨.apiGet, .ok mc⟩ :: t') ∨
      (∃ t', t = ⟨.get, .ok mc⟩ :: t') ∧ rotationLooksDue L mc now = false := by
  unfold decidedOn at h
  split at h
  · rename_i cached t
    split at h
    · split at h
      · rename_i fresh t'
        obtain rfl := Option.some.inj h
        exact .inl ⟨cached, t', rfl⟩
      · cases h
    · rename_i hdue
      obtain rfl := Option.some.inj h
      exact .inr ⟨⟨t, rfl⟩, by simpa using hdue⟩
  · cases h

/-- A reconcile that has decided on `mc` and reported nothing yet. -/
structure Deciding (L : CredentialLibraries) (now : Int) (mc : MailCredential)
    (t : ReconcileTrace) : Prop where
  decided : decidedOn L now t = some mc
  unreported : Unreported t

theorem Deciding.concat {now : Int} {mc : MailCredential} {t : ReconcileTrace}
    (h : Deciding L now mc t) {c : Call} (hc : ∀ new, c ≠ .statusUpdate new) (a : c.Answer) :
    Deciding L now mc (t ++ [⟨c, a⟩]) := by
  refine ⟨decidedOn_append h.decided _, fun e he new => ?_⟩
  rcases List.mem_append.mp he with hold | hlast
  · exact h.unreported e hold new
  · obtain rfl := List.mem_singleton.mp hlast
    exact hc new

/-! ## What a status is made of -/

/-- The Secret an outcome stands for. -/
def Outcome.writes (mc : MailCredential) : Outcome → List SecretWrite
  | .written password => [((mc.ns, mc.spec.secretName), some password)]
  | _ => []

variable (L)

/-- Why a password has to be written, once the status is prepared. -/
def due (r : Reconciler) (mc : MailCredential) (now : Int) : Option Trigger :=
  rotationDue { mc with status := ((prepare L r mc).expire now).status } now
    (rotationSettings L mc.spec.rotation).1.1

variable (P : Event Call Call.Answer → Prop) (r : Reconciler) (mc : MailCredential) (now : Int)

/-- What can come of a rotation, with answers in `P`. -/
inductive Tried (why : Option Trigger) : Outcome → Prop
  | disabled (h : r.generatedEnabled = false) : Tried why .disabled
  | notDue (h : r.generatedEnabled = true) (hwhy : why = none) : Tried why .notDue
  | guardMissing (h : r.generatedEnabled = true) (hwhy : why ≠ none) {msg : Bytes}
    (hguard : P ⟨.guardOK, (false, msg)⟩) : Tried why (.guardMissing msg)
  | created (h : r.generatedEnabled = true) (hwhy : why ≠ none) {msg : Bytes}
    (hguard : P ⟨.guardOK, (true, msg)⟩) {u password : Bytes}
    (hcreate : P ⟨.createSecret (credentialSecret r mc u password), none⟩) :
    Tried why (.written password)
  | patched (h : r.generatedEnabled = true) (hwhy : why ≠ none) {msg : Bytes}
    (hguard : P ⟨.guardOK, (true, msg)⟩) {u password : Bytes} {err : APIError}
    (hcreate : P ⟨.createSecret (credentialSecret r mc u password), some err⟩)
    (hexists : err.kind = .alreadyExists)
    (hpatch : P ⟨.patchSecret (credentialPatch r mc u password), none⟩) :
    Tried why (.written password)
  | conflict (h : r.generatedEnabled = true) (hwhy : why ≠ none) {msg : Bytes}
    (hguard : P ⟨.guardOK, (true, msg)⟩) {u password : Bytes} {err err' : APIError}
    (hcreate : P ⟨.createSecret (credentialSecret r mc u password), some err⟩)
    (hexists : err.kind = .alreadyExists)
    (hpatch : P ⟨.patchSecret (credentialPatch r mc u password), some err'⟩)
    (hinvalid : err'.kind = .invalid) : Tried why .conflict
  | notCreated (h : r.generatedEnabled = true) (hwhy : why ≠ none) {msg : Bytes}
    (hguard : P ⟨.guardOK, (true, msg)⟩) {u password : Bytes} {err : APIError}
    (hcreate : P ⟨.createSecret (credentialSecret r mc u password), some err⟩)
    (hexists : err.kind ≠ .alreadyExists) : Tried why (.failed err)
  | notPatched (h : r.generatedEnabled = true) (hwhy : why ≠ none) {msg : Bytes}
    (hguard : P ⟨.guardOK, (true, msg)⟩) {u password : Bytes} {err err' : APIError}
    (hcreate : P ⟨.createSecret (credentialSecret r mc u password), some err⟩)
    (hexists : err.kind = .alreadyExists)
    (hpatch : P ⟨.patchSecret (credentialPatch r mc u password), some err'⟩)
    (hinvalid : err'.kind ≠ .invalid) : Tried why (.failed err')

/-- The drafts a reconcile of `mc` can end with, and the Secrets it then has written. -/
inductive Drafted : List SecretWrite → Draft → Prop
  | refused (h : (prepare L r mc).verdict.isSome = true) : Drafted [] (prepare L r mc)
  | noServiceAccount (h : (prepare L r mc).verdict = none) {err : APIError}
    (hget : P ⟨.getServiceAccount mc.ns mc.spec.serviceAccountName, some err⟩)
    (hkind : err.kind = .notFound) : Drafted [] ((prepare L r mc).noServiceAccount mc)
  | ownHash (h : (prepare L r mc).verdict = none)
    (hget : P ⟨.getServiceAccount mc.ns mc.spec.serviceAccountName, none⟩)
    (hmode : mc.generated = false) : Drafted [] ((prepare L r mc).acceptOwnHash mc now)
  | generated (h : (prepare L r mc).verdict = none)
    (hget : P ⟨.getServiceAccount mc.ns mc.spec.serviceAccountName, none⟩)
    (hmode : mc.generated = true) {outcome : Outcome}
    (htried : Tried P r mc (due L r mc now) outcome) :
    Drafted (outcome.writes mc) (outcome.apply L mc now
      (rotationSettings L mc.spec.rotation).1.2 ((prepare L r mc).expire now)).settle

/-- The guard's verdict, where the status reports it. -/
def Guarded (guard : Option (Bool × Bytes)) : Prop :=
  if mc.generated && r.generatedEnabled then ∃ verdict, guard = some verdict ∧ P ⟨.guardOK, verdict⟩
  else guard = none

/-- A status a reconcile of `mc` can come to, with the Secrets it then has written. -/
def Comes (written : List SecretWrite) (st : MailCredentialStatus) : Prop :=
  ∃ d guard, Drafted L P r mc now written d ∧ Guarded P r mc guard ∧ st = conclude mc now guard d

/-! ## Call by call -/

/-- A Secret with `password` may be written for `mc`. -/
structure MayWrite (mc : MailCredential) (password : Bytes) (t : ReconcileTrace) : Prop where
  deciding : Deciding L now mc t
  prepared : (prepare L r mc).verdict = none
  account : P ⟨.getServiceAccount mc.ns mc.spec.serviceAccountName, none⟩
  generated : mc.generated = true
  enabled : r.generatedEnabled = true
  guarded : ∃ msg, P ⟨.guardOK, (true, msg)⟩
  due : due L r mc now ≠ none
  unwritten : writes t = []
  random : ⟨.generatePassword, .ok password⟩ ∈ t

/-- The object a status is written onto: the one it was made for or, once a Secret has
been written, the latest one. -/
def Onto (mc new : MailCredential) (t : ReconcileTrace) : Prop :=
  (Unreported t ∧ new = { mc with status := new.status }) ∨
    (writes t ≠ [] ∧
      ∃ latest, ⟨.apiGet, .ok latest⟩ ∈ t ∧ new = { latest with status := new.status })

/-- What was done before a call. -/
def Protocol (t : ReconcileTrace) : Call → Prop
  | .createSecret s => ∃ mc u password, MayWrite L P r now mc password t ∧
      s = credentialSecret r mc u password
  | .patchSecret p => ∃ mc u password, MayWrite L P r now mc password t ∧
      (∃ err, P ⟨.createSecret (credentialSecret r mc u password), some err⟩ ∧
        err.kind = .alreadyExists) ∧ p = credentialPatch r mc u password
  | .statusUpdate new => ∃ mc, decidedOn L now t = some mc ∧ Onto mc new t ∧
      Comes L P r mc now (writes t) new.status ∧ (writes t = [] → new.status ≠ mc.status)
  | _ => True

/-- A reconcile that succeeds without a status update has found the status as it is. -/
def Ends (t : ReconcileTrace) (res : Except Bytes Int) : Prop :=
  ∀ mc after, decidedOn L now t = some mc → res = .ok after → Unreported t →
    Comes L P r mc now [] mc.status

section Walk
variable {L P r mc now} {t : ReconcileTrace}

theorem writeSecret_keeps {u password : Bytes} (h : MayWrite L P r now mc password t) :
    (writeSecret r mc u password).Keeps P (Protocol L P r now)
      (fun t' w => Deciding L now mc t' ∧ Tried P r mc (due L r mc now) (w.outcome password) ∧
        writes t' = (w.outcome password).writes mc) t := by
  have hdeciding := h.deciding
  obtain ⟨msg, hguard⟩ := h.guarded
  rw [writeSecret, Prog.keeps_call]
  refine ⟨⟨mc, u, password, h, rfl⟩, fun created hcreate => ?_⟩
  have hcreated := hdeciding.concat (c := .createSecret (credentialSecret r mc u password))
    (fun _ hc => by cases hc) created
  cases created with
  | none =>
    exact ⟨hcreated, .created h.enabled h.due hguard hcreate, writes_concat_of_nil h.unwritten _⟩
  | some err =>
    have hnone : writes (t ++ [⟨.createSecret (credentialSecret r mc u password), some err⟩]) =
        [] := writes_concat_of_nil h.unwritten _
    by_cases hexists : err.kind = .alreadyExists
    · simp only [hexists, ne_eq, not_true_eq_false, if_false]
      rw [Prog.keeps_call]
      have hmay : MayWrite L P r now mc password _ :=
        { h with
          deciding := hcreated
          unwritten := hnone
          random := List.mem_append_left _ h.random }
      refine ⟨⟨mc, u, password, hmay, ⟨err, hcreate, hexists⟩, rfl⟩, fun patched hpatch => ?_⟩
      have hpatched := hcreated.concat (c := .patchSecret (credentialPatch r mc u password))
        (fun _ hc => by cases hc) patched
      cases patched with
      | none =>
        exact ⟨hpatched, .patched h.enabled h.due hguard hcreate hexists hpatch,
          writes_concat_of_nil hnone _⟩
      | some err' =>
        by_cases hinvalid : err'.kind = .invalid
        · simp only [hinvalid, if_true]
          exact ⟨hpatched, .conflict h.enabled h.due hguard hcreate hexists hpatch hinvalid,
            writes_concat_of_nil hnone _⟩
        · simp only [hinvalid, if_false]
          exact ⟨hpatched, .notPatched h.enabled h.due hguard hcreate hexists hpatch hinvalid,
            writes_concat_of_nil hnone _⟩
    · simp only [ne_eq, hexists, not_false_eq_true, if_true]
      exact ⟨hcreated, .notCreated h.enabled h.due hguard hcreate hexists, hnone⟩

theorem rotate_keeps {u : Bytes} (hdeciding : Deciding L now mc t) (hwrites : writes t = [])
    (hprepared : (prepare L r mc).verdict = none) (hmode : mc.generated = true)
    (hget : P ⟨.getServiceAccount mc.ns mc.spec.serviceAccountName, none⟩) :
    (rotate r mc u (due L r mc now)).Keeps P (Protocol L P r now)
      (fun t' res => Deciding L now mc t' ∧ ∀ outcome, res = .ok outcome →
        Tried P r mc (due L r mc now) outcome ∧ writes t' = outcome.writes mc) t := by
  unfold rotate
  by_cases hon : r.generatedEnabled = false
  · rw [if_pos hon]
    refine ⟨hdeciding, fun outcome h => ?_⟩
    obtain rfl := Except.ok.inj h
    exact ⟨.disabled hon, hwrites⟩
  · rw [if_neg hon, Prog.keeps_call]
    rw [Bool.not_eq_false] at hon
    refine ⟨trivial, ?_⟩
    rintro ⟨ok, msg⟩ hguard
    have hguarded := hdeciding.concat (c := .guardOK) (fun _ hc => by cases hc) (ok, msg)
    have hnone := writes_concat_of_nil hwrites ⟨.guardOK, (ok, msg)⟩
    by_cases hdue : due L r mc now = none
    · simp only [hdue, if_true]
      refine ⟨hguarded, fun outcome h => ?_⟩
      obtain rfl := Except.ok.inj h
      exact ⟨.notDue hon rfl, hnone⟩
    · simp only [hdue, if_false]
      cases ok with
      | false =>
        refine ⟨hguarded, fun outcome h => ?_⟩
        obtain rfl := Except.ok.inj h
        exact ⟨.guardMissing hon hdue hguard, hnone⟩
      | true =>
        rw [if_neg (by simp), Prog.keeps_call]
        refine ⟨trivial, fun generated _ => ?_⟩
        have hgenerated := hguarded.concat (c := .generatePassword) (fun _ hc => by cases hc)
          generated
        cases generated with
        | error err => exact ⟨hgenerated, fun outcome h => by cases h⟩
        | ok password =>
          have hmay : MayWrite L P r now mc password _ :=
            ⟨hgenerated, hprepared, hget, hmode, hon, ⟨msg, hguard⟩, hdue,
              writes_concat_of_nil hnone _, List.mem_append_right _ List.mem_cons_self⟩
          rw [Prog.keeps_bind]
          refine (writeSecret_keeps hmay).mono ?_
          rintro t' w ⟨hdeciding', htried, hwrites'⟩
          refine ⟨hdeciding', fun outcome h => ?_⟩
          obtain rfl := Except.ok.inj h
          exact ⟨htried, hwrites'⟩

/-- After a Secret has been written, its status is written until that succeeds. -/
structure Recording (L : CredentialLibraries) (P : Event Call Call.Answer → Prop) (r : Reconciler)
    (now : Int) (mc : MailCredential) (st : MailCredentialStatus) (t : ReconcileTrace) : Prop where
  decided : decidedOn L now t = some mc
  written : writes t ≠ []
  comes : Comes L P r mc now (writes t) st
  reported : ¬ Unreported t

theorem Recording.concat {st : MailCredentialStatus} (h : Recording L P r now mc st t)
    {e : Event Call Call.Answer} (he : wrote e = none) : Recording L P r now mc st (t ++ [e]) := by
  have hwrites : writes (t ++ [e]) = writes t := by
    rw [writes_concat, he]
    exact List.append_nil _
  refine ⟨decidedOn_append h.decided _, by rw [hwrites]; exact h.written,
    by rw [hwrites]; exact h.comes, fun hno => h.reported fun e he => ?_⟩
  exact hno e (List.mem_append_left _ he)

theorem retryUpdate_keeps {st : MailCredentialStatus} (h : Recording L P r now mc st t) :
    (retryUpdate { mc with status := st }).Keeps P (Protocol L P r now)
      (fun t' _ => Recording L P r now mc st t') t := by
  rw [retryUpdate, Prog.keeps_call]
  refine ⟨trivial, fun got _ => ?_⟩
  have hread := h.concat (e := ⟨.apiGet, got⟩) rfl
  cases got with
  | error err => exact hread
  | ok latest =>
    dsimp only
    split
    · exact hread
    · refine ⟨⟨mc, hread.decided, .inr ⟨hread.written, latest, ?_, rfl⟩, hread.comes,
        fun hnone => absurd hnone hread.written⟩, fun updated _ => hread.concat rfl⟩
      exact List.mem_append_right _ List.mem_cons_self

theorem retryOnError_keeps {st : MailCredentialStatus} (h : Recording L P r now mc st t)
    (steps : Nat) :
    (retryOnError { mc with status := st } steps).Keeps P (Protocol L P r now)
      (fun t' _ => Recording L P r now mc st t') t := by
  induction steps generalizing t with
  | zero =>
    rw [retryOnError, Prog.keeps_bind]
    refine (retryUpdate_keeps h).mono fun t' res ht' => ?_
    cases res with
    | none => exact ht'
    | some err => exact ⟨trivial, fun alive _ => ht'.concat rfl⟩
  | succ steps ih =>
    rw [retryOnError, Prog.keeps_bind]
    refine (retryUpdate_keeps h).mono fun t' res ht' => ?_
    cases res with
    | none => exact ht'
    | some err =>
      dsimp only
      rw [Prog.keeps_call]
      refine ⟨trivial, fun alive _ => ?_⟩
      have hasked := ht'.concat (e := ⟨.contextAlive, alive⟩) rfl
      split
      · exact ih hasked
      · exact hasked

theorem updateStatus_keeps {st : MailCredentialStatus} {secretWritten : Bool}
    (hdeciding : Deciding L now mc t) (hcomes : Comes L P r mc now (writes t) st)
    (hwritten : secretWritten = true → writes t ≠ [])
    (hchanged : writes t = [] → st ≠ mc.status) :
    (updateStatus { mc with status := st } secretWritten).Keeps P (Protocol L P r now)
      (fun t' _ => ¬ Unreported t') t := by
  rw [updateStatus, Prog.keeps_call]
  refine ⟨⟨mc, hdeciding.decided, .inl ⟨hdeciding.unreported, rfl⟩, hcomes, hchanged⟩,
    fun updated _ => ?_⟩
  have hreported : ¬ Unreported (t ++ [⟨.statusUpdate { mc with status := st }, updated⟩]) :=
    fun hno => hno _ (List.mem_append_right _ List.mem_cons_self) _ rfl
  cases updated with
  | none => exact hreported
  | some err =>
    cases secretWritten with
    | false => exact hreported
    | true =>
      have hwrites : writes (t ++ [⟨.statusUpdate { mc with status := st }, some err⟩]) =
          writes t := by
        rw [writes_concat]
        exact List.append_nil _
      have hrecording : Recording L P r now mc st _ :=
        ⟨decidedOn_append hdeciding.decided _, by rw [hwrites]; exact hwritten rfl,
          by rw [hwrites]; exact hcomes, hreported⟩
      exact (retryOnError_keeps hrecording 5).mono fun t' _ h => h.reported

theorem guardVerdict_keeps (hdeciding : Deciding L now mc t) :
    (guardVerdict r mc).Keeps P (Protocol L P r now)
      (fun t' guard => Deciding L now mc t' ∧ writes t' = writes t ∧ Guarded P r mc guard) t := by
  unfold guardVerdict Guarded
  split
  · rw [Prog.keeps_call]
    refine ⟨trivial, fun verdict hverdict => ⟨?_, ?_, verdict, rfl, hverdict⟩⟩
    · exact hdeciding.concat (fun _ hc => by cases hc) verdict
    · rw [writes_concat]
      exact List.append_nil _
  · exact ⟨hdeciding, rfl, rfl⟩

theorem finish_keeps {d : Draft} {secretWritten : Bool} {retErr : Option Bytes}
    {requeueAfter : Int} (hdeciding : Deciding L now mc t)
    (hdrafted : Drafted L P r mc now (writes t) d)
    (hwritten : secretWritten = true ↔ writes t ≠ []) :
    (finish r mc now d secretWritten retErr requeueAfter).Keeps P (Protocol L P r now)
      (Ends L P r now) t := by
  rw [finish, Prog.keeps_bind]
  refine (guardVerdict_keeps hdeciding).mono ?_
  rintro t' guard ⟨hdeciding', hwrites, hguarded⟩
  have hcomes : Comes L P r mc now (writes t') (conclude mc now guard d) :=
    ⟨d, guard, hwrites ▸ hdrafted, hguarded, rfl⟩
  rw [Prog.keeps_bind, updateChanged]
  split
  · -- the status is written
    rename_i hchanged
    have hchanged' : writes t' = [] → conclude mc now guard d ≠ mc.status := by
      intro hnone
      refine hchanged.resolve_right fun h => ?_
      rw [hwrites] at hnone
      exact hwritten.mp h hnone
    refine (updateStatus_keeps hdeciding' hcomes (fun h => hwrites ▸ hwritten.mp h)
      hchanged').mono fun t'' err hreported => ?_
    cases err <;> cases retErr <;> exact fun _ _ _ _ hno => absurd hno hreported
  · rename_i hsame
    rw [not_or, not_not, Bool.not_eq_true] at hsame
    obtain ⟨hstatus, hunwritten⟩ := hsame
    have hnone : writes t' = [] := by
      rw [hwrites]
      by_contra hne
      rw [hwritten.mpr hne] at hunwritten
      cases hunwritten
    have hends : ∀ res, Ends L P r now t' res := by
      intro res mc' after hmc' _ _
      obtain rfl := Option.some.inj (hdeciding'.decided.symm.trans hmc')
      rw [hnone, hstatus] at hcomes
      exact hcomes
    cases retErr <;> exact hends _

theorem reconcileGenerated_keeps (hdeciding : Deciding L now mc t) (hwrites : writes t = [])
    (hprepared : (prepare L r mc).verdict = none) (hmode : mc.generated = true)
    (hget : P ⟨.getServiceAccount mc.ns mc.spec.serviceAccountName, none⟩) :
    (reconcileGenerated L r mc now (prepare L r mc)).Keeps P (Protocol L P r now)
      (Ends L P r now) t := by
  rw [reconcileGenerated, Prog.keeps_bind]
  refine (rotate_keeps hdeciding hwrites hprepared hmode hget).mono ?_
  rintro t' res ⟨hdeciding', hres⟩
  cases res with
  | error err => exact fun _ _ _ h => by cases h
  | ok outcome =>
    obtain ⟨htried, hwrites'⟩ := hres outcome rfl
    have hdrafted := Drafted.generated hprepared hget hmode htried
    rw [← hwrites'] at hdrafted
    refine finish_keeps hdeciding' hdrafted ?_
    rw [hwrites']
    cases outcome <;> simp [Outcome.writes]

theorem reconcileObject_keeps (hdeciding : Deciding L now mc t) (hwrites : writes t = []) :
    (reconcileObject L r mc now).Keeps P (Protocol L P r now) (Ends L P r now) t := by
  unfold reconcileObject
  dsimp only
  split
  · rename_i hrefused
    exact finish_keeps hdeciding (hwrites ▸ .refused hrefused) (by simp [hwrites])
  · rename_i hprepared
    rw [Bool.not_eq_true, Option.isSome_eq_false_iff, Option.isNone_iff_eq_none] at hprepared
    rw [Prog.keeps_call]
    refine ⟨trivial, fun got hget => ?_⟩
    have hgot := hdeciding.concat
      (c := .getServiceAccount mc.ns mc.spec.serviceAccountName) (fun _ hc => by cases hc) got
    have hnone := writes_concat_of_nil hwrites
      ⟨.getServiceAccount mc.ns mc.spec.serviceAccountName, got⟩
    cases got with
    | some err =>
      dsimp only
      split
      · rename_i hkind
        exact finish_keeps hgot (hnone ▸ .noServiceAccount hprepared hget hkind)
          (by simp [hnone, wrote])
      · exact fun _ _ _ h => by cases h
    | none =>
      dsimp only
      split
      · rename_i hmode
        exact reconcileGenerated_keeps hgot hnone hprepared hmode hget
      · rename_i hmode
        exact finish_keeps hgot (hnone ▸ .ownHash hprepared hget (by simpa using hmode))
          (by simp [hnone, wrote])

/-- **Every call of `Reconcile` is made after what `Protocol` says**, whatever it is
answered. -/
theorem reconcile_keeps (L : CredentialLibraries) (P : Event Call Call.Answer → Prop)
    (r : Reconciler) (now : Int) :
    (reconcile L r now).Keeps P (Protocol L P r now) (Ends L P r now) [] := by
  rw [reconcile, Prog.keeps_call]
  refine ⟨trivial, fun got _ => ?_⟩
  cases got with
  | error err => exact fun _ _ h => by cases h
  | ok cached =>
    dsimp only
    split
    · rename_i hdue
      rw [Prog.keeps_call]
      refine ⟨trivial, fun read _ => ?_⟩
      cases read with
      | error err =>
        intro mc after hmc
        simp [decidedOn, hdue] at hmc
      | ok fresh =>
        refine reconcileObject_keeps ⟨by simp [decidedOn, hdue], fun e he new => ?_⟩ rfl
        simp only [List.nil_append, List.singleton_append, List.mem_cons, List.not_mem_nil,
          or_false] at he
        rcases he with rfl | rfl <;> exact fun h => by cases h
    · rename_i hdue
      refine reconcileObject_keeps ⟨by simp [decidedOn, hdue], fun e he new => ?_⟩ rfl
      obtain rfl := List.mem_singleton.mp he
      exact fun h => by cases h

end Walk

end Controller
end Sigillum
