import Sigillum.RotationTriggers
import Sigillum.SecretAgreement

/-! # The grace period

A password that is rotated out is kept as the one `previous` hash of the status.  As long
as no other rotation falls due, it is accepted until its grace period is over, and never
afterwards.  A further rotation takes its place: `rotatedTwice_rejects`.
-/
namespace Sigillum
open Runes Bytes Duration Interaction Credential

namespace Controller

variable {L : CredentialLibraries} {r : Reconciler} {now : Int} {t : ReconcileTrace}
  {res : Except Bytes Int} {mc : MailCredential} {st : MailCredentialStatus} {w w' : Cluster}

/-! ## Names of Secrets -/

theorem Comes.namesOwnSecret {written : List SecretWrite} (h : Comes L Any r mc now written st)
    (hmc : NamesOwnSecret mc.status) : NamesOwnSecret st.stored := by
  intro cur hcur hown
  obtain ⟨cur', hcur', rfl⟩ := Option.map_eq_some_iff.mp hcur
  by_cases hwritten : written = []
  · subst hwritten
    rcases h.current_of_unwritten with hnone | ⟨hcurrent, hname⟩ | ⟨_, -, -, hname⟩
    · rw [hnone] at hcur'
      cases hcur'
    · exact hname.trans (hmc cur' (hcurrent ▸ hcur') hown)
    · exact hname
  · obtain ⟨password, -, -, hcurrent, -⟩ := h.current_of_written hwritten
    rw [hcurrent] at hcur'
    obtain rfl := Option.some.inj hcur'
    have hgenerated : isGeneratedHash (hashGenerated L password) = false := hown
    simp at hgenerated

/-- The statuses the controller writes name a Secret only with a generated hash. -/
theorem Reachable.namesOwnSecret (h : Reachable L w) :
    ∀ v ∈ w.versions, NamesOwnSecret v.status := by
  induction h with
  | new mc h =>
    intro v hv
    obtain rfl := List.mem_singleton.mp hv
    rw [h]
    exact nofun
  | edit _ hedit ih =>
    exact Disturbed.keeps_status (fun _ _ h => h) (.edit hedit hedit.toFollows (.refl _)) ih
  | round _ hround _ ih =>
    exact hround.versions (fun _ _ h => h) (fun _ _ _ hmc hcomes => hcomes.namesOwnSecret hmc) ih

/-! ## Runs that leave the spec alone -/

/-- An edit that is not one of the spec. -/
structure Annotated (mc mc' : MailCredential) : Prop extends Edited mc mc' where
  same : mc'.spec = mc.spec

theorem edited_of_annotated (mc mc' : MailCredential) (h : Annotated mc mc') : Edited mc mc' :=
  h.toEdited

theorem spec_eq_of_annotated {mc mc' : MailCredential}
    (h : Relation.ReflTransGen Annotated mc mc') : mc'.spec = mc.spec := by
  induction h with
  | refl => rfl
  | tail _ hlast ih => rw [hlast.same, ih]

theorem status_eq_of_annotated {mc mc' : MailCredential}
    (h : Relation.ReflTransGen Annotated mc mc') : mc'.status = mc.status :=
  status_eq_of_edits edited_of_annotated h

/-- A password that was written is one that was generated for it. -/
theorem mayWrite_of_mem_writes {P : Event Call Call.Answer → Prop} {secret : Bytes × Bytes}
    {password : Bytes} (hmeets : Meets P (Protocol L P r now) t)
    (h : (secret, some password) ∈ writes t) :
    ∃ earlier later mc, t = earlier ++ later ∧ MayWrite L P r now mc password earlier := by
  obtain ⟨⟨c, a⟩, he, hwrote⟩ := List.mem_filterMap.mp h
  obtain ⟨earlier, later, rfl⟩ := List.append_of_mem he
  have hcall := (hmeets earlier later _ rfl).1
  cases c with
  | createSecret s =>
    obtain ⟨mc, u, generated, hmay, rfl⟩ := hcall
    cases a with
    | none =>
      have hsame : some generated = some password := (Prod.mk.inj (Option.some.inj hwrote)).2
      obtain rfl := Option.some.inj hsame
      exact ⟨earlier, _, mc, rfl, hmay⟩
    | some err => cases hwrote
  | patchSecret p =>
    obtain ⟨mc, u, generated, hmay, -, rfl⟩ := hcall
    cases a with
    | none =>
      have hsame : some generated = some password := (Prod.mk.inj (Option.some.inj hwrote)).2
      obtain rfl := Option.some.inj hsame
      exact ⟨earlier, _, mc, rfl, hmay⟩
    | some err => cases hwrote
  | _ => cases hwrote

/-- What a reconcile rotates is the object as it is, but for edits. -/
theorem Round.edits_of_written (h : Round Annotated L r now w t res w')
    (hnames : ∀ v ∈ w.versions, NamesOwnSecret v.status) {secret : Bytes × Bytes}
    {password : Bytes} (hwritten : (secret, some password) ∈ writes t)
    (hdecided : decidedOn L now t = some mc) :
    Relation.ReflTransGen Annotated w.object mc ∧ ⟨.generatePassword, .ok password⟩ ∈ t ∧
      ⟨.apiGet, .ok mc⟩ ∈ t ∧ rotationLooksDue L mc now = true := by
  have hunderway := h.underway edited_of_annotated
  have hnames' := h.versions edited_of_annotated
    (fun _ _ _ hmc hcomes => hcomes.namesOwnSecret hmc) hnames
  obtain ⟨earlier, later, mc', rfl, hmay⟩ := mayWrite_of_mem_writes h.meets hwritten
  obtain rfl := Option.some.inj ((decidedOn_append hmay.deciding.decided later).symm.trans hdecided)
  obtain ⟨hread, hdue⟩ := hmay.fresh fun v hv => hnames' v (hunderway.read v
    (hv.imp (List.mem_append_left _) (List.mem_append_left _)))
  refine ⟨?_, List.mem_append_left _ hmay.random, List.mem_append_left _ hread, hdue⟩
  rcases read_of_decidedOn hdecided with ⟨cached, t', ht'⟩ | ⟨-, hundue⟩
  · exact hunderway.fresh cached _ t' ht'
  · rw [hundue] at hdue
    cases hdue

/-- The spec stays as it is. -/
theorem Round.spec_eq (h : Round Annotated L r now w t res w') :
    w'.object.spec = w.object.spec := by
  refine h.served.keeps (J := fun w' _ => w'.object.spec = w.object.spec) h.meets rfl ?_
  rintro w₁ _ c a w₂ hspec _ ⟨found, hfound, hanswers⟩
  have hfoundSpec := (spec_eq_of_annotated hfound.object).trans hspec
  rcases hanswers.object_or_store with ⟨hobject, -⟩ | ⟨new, rfl, -, rfl⟩
  · rw [hobject, hfoundSpec]
  · exact hfoundSpec

/-! ## A password that has been rotated out -/

/-- Without a Secret written, generated hashes stay, or the previous one has expired. -/
theorem Comes.hashes_of_unwritten {P : Event Call Call.Answer → Prop}
    (h : Comes L P r mc now [] st) (hmode : mc.generated = true)
    (hcur : ∀ cur, mc.status.current = some cur → isGeneratedHash cur.hash = true) :
    st.current = mc.status.current ∧ (st.previous = mc.status.previous ∨
      st.previous = mc.status.previous.filter fun prev => now < prev.validUntil) := by
  obtain ⟨d, guard, hdrafted, -, rfl⟩ := h
  change d.status.current = _ ∧ (d.status.previous = _ ∨ d.status.previous = _)
  have hprepared := preparedStatus_of_generated (r := r) hmode hcur
  generalize hwritten : ([] : List SecretWrite) = written at hdrafted
  cases hdrafted with
  | refused =>
    rw [prepare_eq, hprepared]
    exact ⟨rfl, .inl rfl⟩
  | noServiceAccount =>
    rw [Draft.noServiceAccount_status, prepare_eq, hprepared]
    exact ⟨rfl, .inl rfl⟩
  | ownHash _ _ hown => simp [hmode] at hown
  | generated =>
    rw [Draft.settle_status, Outcome.apply_status hwritten.symm, expire_status, hprepared]
    exact ⟨rfl, .inr rfl⟩

/-- The password has been rotated out: it is not the current one, and as the previous one
it is good until `expiry`. -/
structure Retired (L : CredentialLibraries) (password : Bytes) (expiry : Int)
    (mc : MailCredential) : Prop where
  generated : mc.generated = true
  current : ∃ new createdAt, mc.status.current = some ⟨hashGenerated L new, createdAt⟩ ∧
    hashGenerated L new ≠ hashGenerated L password
  previous : ∀ prev, mc.status.previous = some prev → (∃ old, prev.hash = hashGenerated L old) ∧
    (prev.hash = hashGenerated L password → prev.validUntil = expiry)

/-- The status still holds it. -/
def Held (L : CredentialLibraries) (password : Bytes) (expiry : Int) (mc : MailCredential) : Prop :=
  mc.status.previous = some ⟨hashGenerated L password, expiry⟩

/-- No password that is generated hashes like `password`. -/
def Distinct (L : CredentialLibraries) (password : Bytes) : Event Call Call.Answer → Prop
  | ⟨.generatePassword, .ok new⟩ => hashGenerated L new ≠ hashGenerated L password
  | _ => True

variable {password : Bytes} {expiry : Int}

theorem Retired.congr {mc' : MailCredential} (h : Retired L password expiry mc)
    (hspec : mc'.spec = mc.spec) (hstatus : mc'.status = mc.status) :
    Retired L password expiry mc' where
  generated := by
    rw [MailCredential.generated, hspec]
    exact h.generated
  current := hstatus ▸ h.current
  previous := hstatus ▸ h.previous

theorem Retired.isGeneratedHash (h : Retired L password expiry mc) :
    ∀ cur, mc.status.current = some cur → isGeneratedHash cur.hash = true := by
  intro cur hcur
  obtain ⟨new, createdAt, hnew, -⟩ := h.current
  obtain rfl := Option.some.inj (hnew.symm.trans hcur)
  exact isGeneratedHash_hashGenerated L new

/-- Without a Secret written, it stays rotated out. -/
theorem Retired.stored_of_unwritten (hexpiry : wholeSeconds expiry = expiry)
    (h : Retired L password expiry mc) (hcomes : Comes L Any r mc now [] st)
    (hobject : w.object.status = st.stored) (hspec : w.object.spec = mc.spec) :
    Retired L password expiry w.object := by
  obtain ⟨hcurrent, hprevious⟩ := hcomes.hashes_of_unwritten h.generated h.isGeneratedHash
  refine ⟨?_, ?_, ?_⟩
  · rw [MailCredential.generated, hspec]
    exact h.generated
  · obtain ⟨new, createdAt, hnew, hne⟩ := h.current
    refine ⟨new, wholeSeconds createdAt, ?_, hne⟩
    rw [hobject]
    simp [MailCredentialStatus.stored, hcurrent, hnew, CredentialHash.stored]
  · intro prev hprev
    rw [hobject] at hprev
    obtain ⟨prev', hprev', rfl⟩ := Option.map_eq_some_iff.mp hprev
    have hbefore : mc.status.previous = some prev' := by
      rcases hprevious with hsame | hfiltered
      · rw [← hsame, hprev']
      · rw [hprev'] at hfiltered
        exact (Option.filter_eq_some_iff.mp hfiltered.symm).1
    obtain ⟨hold, huntil⟩ := h.previous prev' hbefore
    refine ⟨hold, fun hhash => ?_⟩
    rw [PreviousCredentialHash.stored, huntil hhash, hexpiry]

/-- Another rotation takes its place, and leaves it with no time at all. -/
theorem Retired.stored_of_written {written : List SecretWrite} {new : Bytes}
    {secret : Bytes × Bytes}
    (h : Retired L password expiry mc) (hcomes : Comes L Any r mc now written st)
    (hwritten : written = [(secret, some new)])
    (hnew : hashGenerated L new ≠ hashGenerated L password)
    (hobject : w.object.status = st.stored) (hspec : w.object.spec = mc.spec) (expiry' : Int) :
    Retired L password expiry' w.object := by
  obtain ⟨new', hwritten', -, hcurrent, -, hprevious⟩ :=
    hcomes.current_of_written (by simp [hwritten])
  obtain rfl : new = new' := by
    rw [hwritten] at hwritten'
    exact Option.some.inj (Prod.mk.inj (List.cons.inj hwritten').1).2
  rw [preparedStatus_of_generated h.generated h.isGeneratedHash] at hprevious
  refine ⟨?_, ⟨new, wholeSeconds now, ?_, hnew⟩, ?_⟩
  · rw [MailCredential.generated, hspec]
    exact h.generated
  · rw [hobject]
    simp [MailCredentialStatus.stored, hcurrent, CredentialHash.stored]
  · intro prev hprev
    rw [hobject] at hprev
    obtain ⟨prev', hprev', rfl⟩ := Option.map_eq_some_iff.mp hprev
    obtain ⟨old, createdAt, hold, hne⟩ := h.current
    -- it is the password of before the rotation that is kept
    have hhash : prev'.hash = hashGenerated L old := by
      have hbefore : (Draft.begin mc).status.current = some ⟨hashGenerated L old, createdAt⟩ := hold
      rw [hprevious, retire, hbefore] at hprev'
      dsimp only at hprev'
      split at hprev'
      · obtain rfl := Option.some.inj hprev'
        rfl
      · cases hprev'
    refine ⟨⟨old, hhash⟩, fun hsame => absurd ?_ hne⟩
    exact hhash.symm.trans hsame

theorem Retired.round_written (h : Retired L password expiry w.object)
    (hround : Round Annotated L r now w t res w')
    (hnames : ∀ v ∈ w.versions, NamesOwnSecret v.status) (hwrites : writes t ≠ [])
    (hrecorded : ∃ e ∈ t, confirmed e = true) (hdistinct : ∀ e ∈ t, Distinct L password e)
    (expiry' : Int) : Retired L password expiry' w'.object := by
  obtain ⟨mc, st, hreports⟩ := (hround.underway edited_of_annotated).confirmed hrecorded
  obtain ⟨new, hwritten, -⟩ := hreports.comes.current_of_written hwrites
  have hmem : ((mc.ns, mc.spec.secretName), some new) ∈ writes t := by simp [hwritten]
  obtain ⟨hedits, hnew, -⟩ := hround.edits_of_written hnames hmem hreports.decided
  have hmc := h.congr (spec_eq_of_annotated hedits) (status_eq_of_annotated hedits)
  have hspec : w'.object.spec = mc.spec := by rw [hround.spec_eq, spec_eq_of_annotated hedits]
  exact hmc.stored_of_written hreports.comes hwritten (hdistinct _ hnew) hreports.status
    hspec expiry'

theorem Retired.round (hexpiry : wholeSeconds expiry = expiry)
    (h : Retired L password expiry w.object) (hround : Round Annotated L r now w t res w')
    (hnames : ∀ v ∈ w.versions, NamesOwnSecret v.status)
    (hrecorded : writes t ≠ [] → ∃ e ∈ t, confirmed e = true)
    (hdistinct : ∀ e ∈ t, Distinct L password e) : Retired L password expiry w'.object := by
  have hspec := hround.spec_eq
  by_cases hwrites : writes t = []
  · rcases (hround.underway edited_of_annotated).object with hedits | ⟨-, mc, st, hreports⟩
    · exact h.congr hspec (status_eq_of_annotated hedits)
    · have hedits := hreports.edits hwrites
      have hmc := h.congr (spec_eq_of_annotated hedits) (status_eq_of_annotated hedits)
      refine hmc.stored_of_unwritten hexpiry (hwrites ▸ hreports.comes) hreports.status ?_
      rw [hspec, spec_eq_of_annotated hedits]
  · exact h.round_written hround hnames hwrites (hrecorded hwrites) hdistinct expiry

theorem Held.round (hexpiry : wholeSeconds expiry = expiry) (h : Held L password expiry w.object)
    (hretired : Retired L password expiry w.object) (hround : Round Annotated L r now w t res w')
    (hnow : now < expiry) (hwrites : writes t = []) : Held L password expiry w'.object := by
  rcases (hround.underway edited_of_annotated).object with hedits | ⟨-, mc, st, hreports⟩
  · rw [Held, status_eq_of_annotated hedits]
    exact h
  · have hedits := hreports.edits hwrites
    have hmc := hretired.congr (spec_eq_of_annotated hedits) (status_eq_of_annotated hedits)
    have hheld : mc.status.previous = some ⟨hashGenerated L password, expiry⟩ := by
      rw [status_eq_of_annotated hedits]
      exact h
    have hcomes := hreports.comes
    rw [hwrites] at hcomes
    have hprevious : st.previous = some ⟨hashGenerated L password, expiry⟩ := by
      rcases (hcomes.hashes_of_unwritten hmc.generated hmc.isGeneratedHash).2 with hsame | hfiltered
      · rw [hsame, hheld]
      · rw [hfiltered, hheld]
        simp [Option.filter, hnow]
    rw [Held, hreports.status]
    simp [MailCredentialStatus.stored, hprevious, PreviousCredentialHash.stored, hexpiry]

/-! ## Logins -/

/-- **A password whose grace period is over is rejected.** -/
theorem Retired.check_eq_error (h : Retired L password expiry mc) {time : Int}
    (hover : expiry ≤ time) (cache : ArgonCache) (later : Int) :
    (check L cache mc password time later).1 = .error .invalid := by
  obtain ⟨new, createdAt, hcurrent, hne⟩ := h.current
  have hcurrentRejects : verifyGenerated L (hashGenerated L new) password = false := by
    rw [← Bool.not_eq_true, verifyGenerated_hashGenerated]
    exact hne
  have hpreviousRejects : (mc.status.previous.filter fun prev =>
      time < prev.validUntil && verifyGenerated L prev.hash password) = none := by
    rw [Option.filter_eq_none_iff]
    intro prev hprev
    obtain ⟨⟨old, hold⟩, huntil⟩ := h.previous prev hprev
    rw [Bool.and_eq_true, decide_eq_true_eq, hold, verifyGenerated_hashGenerated]
    rintro ⟨hlive, hsame⟩
    rw [huntil (hold.trans hsame)] at hlive
    omega
  unfold check
  split
  · rfl
  · rw [if_pos h.generated, checkGenerated, hcurrent]
    simp [Option.filter_some, hcurrentRejects, hpreviousRejects]

/-- **A password that is held is accepted as the previous one.** -/
theorem Held.check_eq_ok (h : Held L password expiry mc) (hretired : Retired L password expiry mc)
    (hne : password ≠ []) {time : Int} (hlive : time < expiry) (cache : ArgonCache) (later : Int) :
    ∃ result, (check L cache mc password time later).1 = .ok result ∧ result.previous = true := by
  obtain ⟨new, createdAt, hcurrent, hne'⟩ := hretired.current
  have hcurrentRejects : verifyGenerated L (hashGenerated L new) password = false := by
    rw [← Bool.not_eq_true, verifyGenerated_hashGenerated]
    exact hne'
  have haccepts : verifyGenerated L (hashGenerated L password) password = true :=
    (verifyGenerated_hashGenerated L password password).mpr rfl
  refine ⟨{ resultOf mc with hash := hashGenerated L password, previous := true }, ?_, rfl⟩
  have hheld : mc.status.previous = some ⟨hashGenerated L password, expiry⟩ := h
  rw [check, if_neg hne, if_pos hretired.generated, checkGenerated, hcurrent, hheld]
  simp [Option.filter_some, hcurrentRejects, haccepts, hlive]

/-! ## Runs -/

/-- A rotation retires the password there was, and holds it for the grace period. -/
theorem Round.retires (h : Round Annotated L r now w t res w')
    (hnames : ∀ v ∈ w.versions, NamesOwnSecret v.status) (hmode : w.object.generated = true)
    {createdAt grace : Int}
    (hcurrent : w.object.status.current = some ⟨hashGenerated L password, createdAt⟩)
    (hgrace : (rotationSettings L w.object.spec.rotation).1.2 = grace) (hpos : 0 < grace)
    (hwhole : wholeSeconds (now + grace) = now + grace) (hwrites : writes t ≠ [])
    (hrecorded : ∃ e ∈ t, confirmed e = true) (hdistinct : ∀ e ∈ t, Distinct L password e) :
    Retired L password (now + grace) w'.object ∧ Held L password (now + grace) w'.object := by
  obtain ⟨mc, st, hreports⟩ := (h.underway edited_of_annotated).confirmed hrecorded
  obtain ⟨new, hwritten, hmode', hnew, -, hprevious⟩ := hreports.comes.current_of_written hwrites
  have hmem : ((mc.ns, mc.spec.secretName), some new) ∈ writes t := by simp [hwritten]
  obtain ⟨hedits, hgenerated, -⟩ := h.edits_of_written hnames hmem hreports.decided
  have hmc : mc.status.current = some ⟨hashGenerated L password, createdAt⟩ := by
    rw [status_eq_of_annotated hedits, hcurrent]
  have hheld : Held L password (now + grace) w'.object := by
    have hprepared : preparedStatus r mc = (Draft.begin mc).status := by
      refine preparedStatus_of_generated hmode' fun cur hcur => ?_
      obtain rfl := Option.some.inj (hmc.symm.trans hcur)
      exact isGeneratedHash_hashGenerated L password
    have hbegin : (Draft.begin mc).status.current = some ⟨hashGenerated L password, createdAt⟩ :=
      hmc
    rw [hprepared, spec_eq_of_annotated hedits, hgrace, retire, hbegin] at hprevious
    simp only [hpos, if_true] at hprevious
    rw [Held, hreports.status]
    simp [MailCredentialStatus.stored, hprevious, PreviousCredentialHash.stored, hwhole]
  refine ⟨⟨?_, ⟨new, wholeSeconds now, ?_, hdistinct _ hgenerated⟩, ?_⟩, hheld⟩
  · rw [MailCredential.generated, h.spec_eq]
    exact hmode
  · rw [hreports.status]
    simp [MailCredentialStatus.stored, hnew, CredentialHash.stored]
  · intro prev hprev
    obtain rfl := Option.some.inj (Eq.trans (Eq.symm hheld) hprev)
    exact ⟨⟨password, rfl⟩, fun _ => rfl⟩

/-- What comes after `w` while the spec is left alone: edits, and reconciles that are
allowed, by their time and by what they do. -/
inductive RunsOn (L : CredentialLibraries) (allowed : Int → ReconcileTrace → Prop) (w : Cluster) :
    Cluster → Prop
  | refl : RunsOn L allowed w w
  | edit {w' : Cluster} {mc : MailCredential} (h : RunsOn L allowed w w')
    (hedit : Annotated w'.object mc) : RunsOn L allowed w (w'.push mc hedit.toFollows)
  | round {r : Reconciler} {now : Int} {w' w'' : Cluster} {t : ReconcileTrace}
    {res : Except Bytes Int} (h : RunsOn L allowed w w')
    (hround : Round Annotated L r now w' t res w'')
    (hrecorded : writes t ≠ [] → ∃ e ∈ t, confirmed e = true) (hallowed : allowed now t) :
    RunsOn L allowed w w''

variable {allowed : Int → ReconcileTrace → Prop}

theorem RunsOn.retired (hexpiry : wholeSeconds expiry = expiry) (h : RunsOn L allowed w w')
    (hallowed : ∀ now t, allowed now t → ∀ e ∈ t, Distinct L password e)
    (hnames : ∀ v ∈ w.versions, NamesOwnSecret v.status)
    (hretired : Retired L password expiry w.object) :
    (∀ v ∈ w'.versions, NamesOwnSecret v.status) ∧ Retired L password expiry w'.object := by
  have hmine : ∀ mc mc', Annotated mc mc' → Edited mc mc' := fun _ _ h => h.toEdited
  induction h with
  | refl => exact ⟨hnames, hretired⟩
  | edit _ hedit ih =>
    refine ⟨Disturbed.keeps_status hmine (.edit hedit hedit.toFollows (.refl _)) ih.1, ?_⟩
    exact ih.2.congr hedit.same hedit.status
  | round _ hround hrecorded hok ih =>
    refine ⟨hround.versions hmine (fun _ _ _ hmc hcomes => hcomes.namesOwnSecret hmc) ih.1, ?_⟩
    exact ih.2.round hexpiry hround ih.1 hrecorded (hallowed _ _ hok)

/-- A reconcile at `time` or before that generates no password like `password`, and writes
no Secret. -/
def Calm (L : CredentialLibraries) (password : Bytes) (time now : Int) (t : ReconcileTrace) :
    Prop :=
  now ≤ time ∧ (∀ e ∈ t, Distinct L password e) ∧ writes t = []

theorem RunsOn.held {time : Int} (hexpiry : wholeSeconds expiry = expiry)
    (h : RunsOn L (Calm L password time) w w') (hlive : time < expiry)
    (hnames : ∀ v ∈ w.versions, NamesOwnSecret v.status)
    (hretired : Retired L password expiry w.object) (hheld : Held L password expiry w.object) :
    Held L password expiry w'.object := by
  induction h with
  | refl => exact hheld
  | edit _ hedit ih =>
    rw [Held, Cluster.push, hedit.status]
    exact ih
  | @round r now w' w'' t res hrun hround _ hok ih =>
    have hretired' := (hrun.retired hexpiry (fun _ _ h => h.2.1) hnames hretired).2
    exact ih.round hexpiry hretired' hround (hok.1.trans_lt hlive) hok.2.2

/-- **A password that is rotated out lives for its grace period**, if there is no other
rotation.  After a rotation at `now` that replaces it, it is accepted as the previous one
until `now + grace`, as long as no reconcile before that time writes a Secret; and
from `now + grace` on it is rejected, however many rotations there have been.  A further
rotation ends its time at once.  The end of the grace period has to fall on a whole second,
the unit it is stored in. -/
theorem rotated_password_lives (hw : Reachable L w) (hmode : w.object.generated = true)
    {createdAt grace : Int}
    (hcurrent : w.object.status.current = some ⟨hashGenerated L password, createdAt⟩)
    (hne : password ≠ []) (hgrace : (rotationSettings L w.object.spec.rotation).1.2 = grace)
    (hpos : 0 < grace) (hwhole : wholeSeconds (now + grace) = now + grace)
    (hround : Round Annotated L r now w t res w') (hrotated : writes t ≠ [])
    (hrecorded : ∃ e ∈ t, confirmed e = true) (hdistinct : ∀ e ∈ t, Distinct L password e) :
    (∀ (time : Int) (w'' : Cluster), time < now + grace → RunsOn L (Calm L password time) w' w'' →
      ∀ (cache : ArgonCache) (later : Int),
        ∃ result, (check L cache w''.object password time later).1 = .ok result ∧
          result.previous = true) ∧
    (∀ (time : Int) (w'' : Cluster), now + grace ≤ time →
      RunsOn L (fun _ t => ∀ e ∈ t, Distinct L password e) w' w'' →
      ∀ (cache : ArgonCache) (later : Int),
        (check L cache w''.object password time later).1 = .error .invalid) ∧
    ∀ (r' : Reconciler) (now' : Int) (t' : ReconcileTrace) (res' : Except Bytes Int)
      (w₁ w₂ : Cluster), RunsOn L (fun _ t => ∀ e ∈ t, Distinct L password e) w' w₁ →
      Round Annotated L r' now' w₁ t' res' w₂ → writes t' ≠ [] →
      (∃ e ∈ t', confirmed e = true) → (∀ e ∈ t', Distinct L password e) →
      ∀ (time : Int) (cache : ArgonCache) (later : Int),
        (check L cache w₂.object password time later).1 = .error .invalid := by
  have hnames := hw.namesOwnSecret
  obtain ⟨hretired, hheld⟩ := hround.retires hnames hmode hcurrent hgrace hpos hwhole hrotated
    hrecorded hdistinct
  have hnames' : ∀ v ∈ w'.versions, NamesOwnSecret v.status :=
    hround.versions (fun _ _ h => h.toEdited)
      (fun _ _ _ hmc hcomes => hcomes.namesOwnSecret hmc) hnames
  refine ⟨?_, ?_, ?_⟩
  · intro time w'' hlive hrun cache later
    have hretired' := (hrun.retired hwhole (fun _ _ h => h.2.1) hnames' hretired).2
    have hheld' := hrun.held hwhole hlive hnames' hretired hheld
    exact hheld'.check_eq_ok hretired' hne hlive cache later
  · intro time w'' hover hrun cache later
    have hretired' := (hrun.retired hwhole (fun _ _ h => h) hnames' hretired).2
    exact hretired'.check_eq_error hover cache later
  · intro r' now' t' res' w₁ w₂ hrun hround' hwrites' hrecorded' hdistinct' time cache later
    obtain ⟨hnames₁, hretired₁⟩ := hrun.retired hwhole (fun _ _ h => h) hnames' hretired
    exact (hretired₁.round_written hround' hnames₁ hwrites' hrecorded' hdistinct'
      time).check_eq_error (le_refl time) cache later

/-! ### One rotation, and two -/

instance (L : CredentialLibraries) (password : Bytes) : DecidablePred (Distinct L password)
  | ⟨.generatePassword, .ok new⟩ =>
    inferInstanceAs (Decidable (hashGenerated L new ≠ hashGenerated L password))
  | ⟨.generatePassword, .error _⟩ | ⟨.get, _⟩ | ⟨.apiGet, _⟩ | ⟨.getServiceAccount _ _, _⟩
  | ⟨.guardOK, _⟩ | ⟨.createSecret _, _⟩ | ⟨.patchSecret _, _⟩ | ⟨.statusUpdate _, _⟩
  | ⟨.contextAlive, _⟩ => inferInstanceAs (Decidable True)

/-- A credential whose password is rotated every hour, with the default grace period. -/
def hourlyCluster : Cluster :=
  ⟨{ newCluster.object with
      spec := { newCluster.object.spec with rotation := some ⟨lit "1h", []⟩ } },
    [], nofun, fun _ => none⟩

/-- Its first password is issued. -/
def hourlyIssued : Cluster × ReconcileTrace × Except Bytes Int :=
  hourlyCluster.reconciling .plain openReconciler 0 (lit "s3cr3t")

/-- An hour later it is rotated out. -/
def hourlyRotated : Cluster × ReconcileTrace × Except Bytes Int :=
  hourlyIssued.1.reconciling .plain openReconciler hour (lit "n3w")

/-- Half an hour later nothing is due. -/
def hourlyIdle : Cluster × ReconcileTrace × Except Bytes Int :=
  hourlyRotated.1.reconciling .plain openReconciler (hour + 30 * minute) (lit "0ther")

/-- After another hour there is a second rotation. -/
def rotatedTwice : Cluster × ReconcileTrace × Except Bytes Int :=
  hourlyRotated.1.reconciling .plain openReconciler (2 * hour) (lit "0ther")

theorem rotated_password_lives_hourly :
    ∃ result, (check .plain .new hourlyIdle.1.object (lit "s3cr3t") (hour + 45 * minute)
      (hour + 45 * minute)).1 = .ok result ∧ result.previous = true := by
  have hreach : Reachable .plain hourlyIssued.1 :=
    .round (.new _ rfl) (hourlyCluster.round_reconciling Edited .plain openReconciler 0
      (lit "s3cr3t")) fun _ => by decide +kernel
  have hround : Round Annotated .plain openReconciler hour hourlyIssued.1 hourlyRotated.2.1
      hourlyRotated.2.2 hourlyRotated.1 := hourlyIssued.1.round_reconciling ..
  have hidle : Round Annotated .plain openReconciler (hour + 30 * minute) hourlyRotated.1
      hourlyIdle.2.1 hourlyIdle.2.2 hourlyIdle.1 := hourlyRotated.1.round_reconciling ..
  have hrun : RunsOn .plain (Calm .plain (lit "s3cr3t") (hour + 45 * minute)) hourlyRotated.1
      hourlyIdle.1 :=
    .round .refl hidle (by decide +kernel)
      ⟨by decide +kernel, by decide +kernel, by decide +kernel⟩
  have hcurrent : hourlyIssued.1.object.status.current =
      some ⟨hashGenerated .plain (lit "s3cr3t"), 0⟩ := by decide +kernel
  have hgrace : (rotationSettings .plain hourlyIssued.1.object.spec.rotation).1.2 = 24 * hour := by
    decide +kernel
  have hlives := rotated_password_lives hreach (by decide +kernel) hcurrent (by decide +kernel)
    hgrace (by decide +kernel) (by decide +kernel) hround (by decide +kernel) (by decide +kernel)
    (by decide +kernel)
  exact hlives.1 _ _ (by decide +kernel) hrun _ _

/-- After two rotations within the grace period, all of them accepted by the webhook and
recorded, the first password is rejected an hour after it was rotated out. -/
theorem rotatedTwice_rejects :
    (⟨⟨[], []⟩, true⟩ : MailCredentialValidator).validate .plain hourlyCluster.object = none ∧
    hourlyIssued.1.object.status.current = some ⟨hashGenerated .plain (lit "s3cr3t"), 0⟩ ∧
    (rotationSettings .plain hourlyCluster.object.spec.rotation).1.2 = 24 * hour ∧
    (writes hourlyRotated.2.1 ≠ [] ∧ ∃ e ∈ hourlyRotated.2.1, confirmed e = true) ∧
    (writes rotatedTwice.2.1 ≠ [] ∧ ∃ e ∈ rotatedTwice.2.1, confirmed e = true) ∧
    2 * hour < hour + 24 * hour ∧
    (check .plain .new rotatedTwice.1.object (lit "s3cr3t") (2 * hour) (2 * hour)).1 =
      .error .invalid := by
  decide +kernel

end Controller
end Sigillum
