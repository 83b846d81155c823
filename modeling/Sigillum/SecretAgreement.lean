import Sigillum.CredentialCluster

/-! # Secret and status agree

Whatever users edit, whatever the cache shows and whichever calls fail, the hash in the
status of a generated credential is that of the password in the Secret the status names,
as long as the status gets through once a Secret has been written.
-/
namespace Sigillum
open Runes Bytes Duration Interaction Credential

namespace Controller

variable {L : CredentialLibraries}

/-! ## What the API server keeps of a status -/

theorem hasPassword_stored {st : MailCredentialStatus} (h : HasPassword st) :
    HasPassword st.stored := by
  obtain ⟨⟨cur, hcur, hhash⟩, hname⟩ := h
  exact ⟨⟨cur.stored, by simp [MailCredentialStatus.stored, hcur], hhash⟩, hname⟩

/-! ## The invariant -/

/-- An object that agrees with the passwords in Secrets, and whose `Ready` condition is
right for the generation it is about. -/
structure Sound (L : CredentialLibraries) (passwords : Bytes × Bytes → Option Bytes)
    (mc : MailCredential) : Prop where
  agrees : ∀ cur, mc.status.current = some cur → isGeneratedHash cur.hash = true →
    ∃ password, passwords (mc.ns, mc.status.secretName) = some password ∧
      cur.hash = hashGenerated L password
  observed : ∀ c, findStatusCondition mc.status.conditions .ready = some c →
    c.observedGeneration ≤ mc.generation
  ready : ∀ c, findStatusCondition mc.status.conditions .ready = some c → c.status = .true →
    c.observedGeneration = mc.generation → mc.generated = true → HasPassword mc.status

theorem Sound.edited {passwords : Bytes × Bytes → Option Bytes} {mc mc' : MailCredential}
    (h : Sound L passwords mc) (hedit : Edited mc mc') : Sound L passwords mc' := by
  have hstatus := hedit.status
  have hgeneration := hedit.generation
  refine ⟨?_, ?_, ?_⟩
  · rw [hstatus, hedit.ns]
    exact h.agrees
  · rw [hstatus]
    exact fun c hc => (h.observed c hc).trans hgeneration
  · rw [hstatus]
    intro c hc htrue hobserved hmode
    -- the condition is about the generation there is now, so the spec is the one of then
    have hle := h.observed c hc
    have hsame : mc'.generation = mc.generation := by omega
    have hmode' : mc.generated = true := by
      rw [MailCredential.generated, ← hedit.spec hsame]
      exact hmode
    exact h.ready c hc htrue (hobserved.trans hsame) hmode'

theorem Sound.edits {passwords : Bytes × Bytes → Option Bytes} {mc mc' : MailCredential}
    (h : Sound L passwords mc) (hedits : Relation.ReflTransGen Edited mc mc') :
    Sound L passwords mc' := by
  induction hedits with
  | refl => exact h
  | tail _ hlast ih => exact ih.edited hlast

/-- A status that was made for a version of the object is right about its generation. -/
theorem Comes.sound {r : Reconciler} {now : Int} {mc : MailCredential}
    {written : List SecretWrite} {st : MailCredentialStatus} {w : Cluster}
    (hcomes : Comes L Any r mc now written st) (hmc : mc ∈ w.versions)
    (hstatus : w.object.status = st.stored)
    (hagrees : ∀ cur, st.current = some cur → isGeneratedHash cur.hash = true →
      ∃ password, w.passwords (mc.ns, st.secretName) = some password ∧
        cur.hash = hashGenerated L password) : Sound L w.passwords w.object := by
  obtain ⟨hns, hle, hspec⟩ := Cluster.of_mem_versions hmc
  have hfind : ∀ c, findStatusCondition w.object.status.conditions .ready = some c →
      ∃ c', findStatusCondition st.conditions .ready = some c' ∧ c = c'.stored := by
    intro c hc
    rw [hstatus, MailCredentialStatus.stored, find_stored] at hc
    obtain ⟨c', hc', rfl⟩ := Option.map_eq_some_iff.mp hc
    exact ⟨c', hc', rfl⟩
  refine ⟨?_, ?_, ?_⟩
  · intro cur hcur hhash
    rw [hstatus] at hcur
    obtain ⟨cur', hcur', rfl⟩ := Option.map_eq_some_iff.mp hcur
    rw [hns, hstatus]
    exact hagrees cur' hcur' hhash
  · intro c hc
    obtain ⟨c', hc', rfl⟩ := hfind c hc
    rw [CredentialCondition.stored, hcomes.observedGeneration hc']
    exact hle
  · intro c hc htrue hobserved hmode
    obtain ⟨c', hc', rfl⟩ := hfind c hc
    rw [CredentialCondition.stored, hcomes.observedGeneration hc'] at hobserved
    have hmode' : mc.generated = true := by
      rw [MailCredential.generated, ← hspec hobserved.symm]
      exact hmode
    rw [hstatus]
    exact hasPassword_stored (hcomes.hasPassword hmode' ⟨c', hc', htrue⟩)

/-- **One reconcile keeps Secret and status in agreement**, if the status is stored
whenever a Secret is written. -/
theorem Sound.round {r : Reconciler} {now : Int} {w w' : Cluster} {t : ReconcileTrace}
    {res : Except Bytes Int} (h : Sound L w.passwords w.object)
    (hround : Round Edited L r now w t res w')
    (hrecorded : writes t ≠ [] → ∃ e ∈ t, confirmed e = true) :
    Sound L w'.passwords w'.object := by
  have hunderway := hround.underway fun _ _ hedit => hedit
  by_cases hwrites : writes t = []
  · have hpasswords : w'.passwords = w.passwords := by
      rw [hunderway.passwords, hwrites]
      rfl
    rcases hunderway.object with hedits | ⟨-, mc, st, hreports⟩
    · rw [hpasswords]
      exact h.edits hedits
    · -- the status was made for an object that agreed
      have hmc := h.edits (hreports.edits hwrites)
      have hcomes := hreports.comes
      refine hcomes.sound (hunderway.mem_versions hreports.decided) hreports.status ?_
      rw [hwrites] at hcomes
      rw [hpasswords]
      intro cur hcur hhash
      rcases hcomes.current_of_unwritten with hnone | ⟨hcurrent, hname⟩ | ⟨cur', hcur', hown, -⟩
      · rw [hnone] at hcur
        cases hcur
      · rw [hname]
        exact hmc.agrees cur (hcurrent ▸ hcur) hhash
      · rw [hcur'] at hcur
        obtain rfl := Option.some.inj hcur
        rw [hown] at hhash
        cases hhash
  · obtain ⟨mc, st, hreports⟩ := hunderway.confirmed (hrecorded hwrites)
    refine hreports.comes.sound (hunderway.mem_versions hreports.decided) hreports.status ?_
    obtain ⟨password, hwritten, -, hcurrent, hname, -⟩ :=
      hreports.comes.current_of_written hwrites
    intro cur hcur _
    rw [hcurrent] at hcur
    obtain rfl := Option.some.inj hcur
    refine ⟨password, ?_, rfl⟩
    rw [hunderway.passwords, hwritten, hname]
    simp [recorded]

/-! ## Runs -/

/-- The clusters that come about: a new object, users' edits, and reconciles one at a
time, each of which gets its status stored if it has written a Secret. -/
inductive Reachable (L : CredentialLibraries) : Cluster → Prop
  | new (mc : MailCredential) (h : mc.status = .empty) :
    Reachable L ⟨mc, [], nofun, fun _ => none⟩
  | edit {w : Cluster} {mc : MailCredential} (h : Reachable L w) (hedit : Edited w.object mc) :
    Reachable L (w.push mc hedit.toFollows)
  | round {r : Reconciler} {now : Int} {w w' : Cluster} {t : ReconcileTrace}
    {res : Except Bytes Int} (h : Reachable L w) (hround : Round Edited L r now w t res w')
    (hrecorded : writes t ≠ [] → ∃ e ∈ t, confirmed e = true) : Reachable L w'

theorem Reachable.sound {w : Cluster} (h : Reachable L w) : Sound L w.passwords w.object := by
  induction h with
  | new mc h =>
    refine ⟨?_, ?_, ?_⟩
    all_goals
      rw [h]
      intro _ hnone
      cases hnone
  | edit _ hedit ih => exact ih.edited hedit
  | round _ hround hrecorded ih => exact ih.round hround hrecorded

/-- Every status a reconcile writes in generated mode is right to report `Ready=True`. -/
theorem Round.hasPassword {r : Reconciler} {now : Int} {w w' : Cluster} {t : ReconcileTrace}
    {res : Except Bytes Int} (hround : Round Edited L r now w t res w') {new : MailCredential}
    {a : Option APIError} (hnew : ⟨.statusUpdate new, a⟩ ∈ t) (hmode : new.generated = true)
    (hready : ReportsReady new.status) : HasPassword new.status := by
  obtain ⟨earlier, later, rfl⟩ := List.append_of_mem hnew
  obtain ⟨mc, -, honto, hcomes, -⟩ := (hround.meets earlier later _ rfl).1
  rcases honto with ⟨-, hsame⟩ | ⟨hwritten, -⟩
  · refine hcomes.hasPassword ?_ hready
    rw [hsame] at hmode
    exact hmode
  · obtain ⟨_, -, hmode', -⟩ := hcomes.current_of_written hwritten
    exact hcomes.hasPassword hmode' hready

/-- **Secret and status agree.**  In every cluster a run comes to, the hash of a generated
password in the status is that of the last password written into the Secret the status
names, and a `Ready=True` for the object's generation stands, in generated mode, for such
a hash and such a name.  So does every `Ready=True` that a reconcile reports. -/
theorem secret_agrees {w : Cluster} (h : Reachable L w) :
    (∀ cur, w.object.status.current = some cur → isGeneratedHash cur.hash = true →
      ∃ password, w.passwords (w.object.ns, w.object.status.secretName) = some password ∧
        cur.hash = hashGenerated L password) ∧
    (∀ c, findStatusCondition w.object.status.conditions .ready = some c → c.status = .true →
      c.observedGeneration = w.object.generation → w.object.generated = true →
      HasPassword w.object.status) ∧
    ∀ (r : Reconciler) (now : Int) (w' : Cluster) (t : ReconcileTrace) (res : Except Bytes Int),
      Round Edited L r now w t res w' → ∀ (new : MailCredential) (a : Option APIError),
      ⟨.statusUpdate new, a⟩ ∈ t → new.generated = true → ReportsReady new.status →
      HasPassword new.status :=
  ⟨h.sound.agrees, h.sound.ready,
    fun _ _ _ _ _ hround _ _ hnew hmode hready => hround.hasPassword hnew hmode hready⟩

/-- That credential, once its password has been issued. -/
def issuedCluster : Cluster := (newCluster.reconciling .plain openReconciler 0 (lit "s3cr3t")).1

theorem issuedCluster_reachable : Reachable .plain issuedCluster :=
  .round (.new _ rfl) (newCluster.round_reconciling Edited .plain openReconciler 0 (lit "s3cr3t"))
    fun _ => by decide +kernel

theorem secret_agrees_issued :
    ∃ password, issuedCluster.passwords (lit "billing", lit "app-smtp") = some password ∧
      hashGenerated .plain (lit "s3cr3t") = hashGenerated .plain password :=
  (secret_agrees issuedCluster_reachable).1 ⟨hashGenerated .plain (lit "s3cr3t"), 0⟩
    (by decide +kernel) (by decide +kernel)

end Controller
end Sigillum
