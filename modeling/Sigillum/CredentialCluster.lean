import Sigillum.CredentialStatus

/-! # A cluster with one credential

The other side of the controller's calls, for one MailCredential: the API server with
the object and every version the informer cache may still show, the passwords the
controller has put into Secrets, and users who edit the object at any moment.

`Round.cases` says what one reconcile can do to all this; every invariant of a run is
derived from it and from `Round.versions`.
-/
namespace Sigillum
open Runes Bytes Duration Interaction Credential

namespace Controller

/-! ## Versions -/

/-- A later version of an object.  The generation counts the changes of its spec. -/
structure Follows (mc mc' : MailCredential) : Prop where
  newer : mc.resourceVersion < mc'.resourceVersion
  name : mc'.name = mc.name
  ns : mc'.ns = mc.ns
  uid : mc'.uid = mc.uid
  generation : mc.generation ≤ mc'.generation
  spec : mc'.generation = mc.generation → mc'.spec = mc.spec

theorem Follows.trans {mc mc' mc'' : MailCredential} (h : Follows mc mc') (h' : Follows mc' mc'') :
    Follows mc mc'' where
  newer := h.newer.trans h'.newer
  name := h'.name.trans h.name
  ns := h'.ns.trans h.ns
  uid := h'.uid.trans h.uid
  generation := h.generation.trans h'.generation
  spec := by
    intro hsame
    have hle := h.generation
    have hle' := h'.generation
    rw [h'.spec (by omega), h.spec (by omega)]

/-- A user's edit: anything but the status, which has an endpoint of its own. -/
structure Edited (mc mc' : MailCredential) : Prop extends Follows mc mc' where
  status : mc'.status = mc.status

/-! ## The cluster -/

structure Cluster where
  object : MailCredential
  older : List MailCredential
  follows : ∀ v ∈ older, Follows v object
  /-- The last password the controller wrote into a Secret, by namespace and name. -/
  passwords : Bytes × Bytes → Option Bytes

namespace Cluster

/-- Every version there has been. -/
def versions (w : Cluster) : List MailCredential := w.object :: w.older

/-- A new version of the object. -/
def push (w : Cluster) (mc : MailCredential) (h : Follows w.object mc) : Cluster where
  object := mc
  older := w.versions
  follows := by
    intro v hv
    rcases List.mem_cons.mp hv with rfl | hv
    · exact h
    · exact (w.follows v hv).trans h
  passwords := w.passwords

/-- The object with another status. -/
def store (w : Cluster) (st : MailCredentialStatus) : Cluster :=
  w.push { w.object with
      resourceVersion := w.object.resourceVersion + 1
      status := st.stored }
    ⟨Nat.lt_succ_self _, rfl, rfl, rfl, le_refl _, fun _ => rfl⟩

/-- A Secret is written. -/
def record (w : Cluster) : Option SecretWrite → Cluster
  | none => w
  | some (secret, password) =>
    { w with passwords := fun s => if s = secret then password else w.passwords s }

@[simp] theorem record_object {w : Cluster} (written : Option SecretWrite) :
    (w.record written).object = w.object := by
  cases written <;> rfl

@[simp] theorem record_versions {w : Cluster} (written : Option SecretWrite) :
    (w.record written).versions = w.versions := by
  cases written <;> rfl

/-- A version that is not out of date is the object. -/
theorem eq_object {w : Cluster} {v : MailCredential} (hv : v ∈ w.versions)
    (h : v.resourceVersion = w.object.resourceVersion) : v = w.object := by
  rcases List.mem_cons.mp hv with rfl | hv
  · rfl
  · exact absurd (w.follows v hv).newer (by omega)

/-- No version is of another object, or of a later generation. -/
theorem of_mem_versions {w : Cluster} {v : MailCredential} (hv : v ∈ w.versions) :
    w.object.ns = v.ns ∧ v.generation ≤ w.object.generation ∧
      (w.object.generation = v.generation → w.object.spec = v.spec) := by
  rcases List.mem_cons.mp hv with rfl | hv
  · exact ⟨rfl, le_refl _, fun _ => rfl⟩
  · have hfollows := w.follows v hv
    exact ⟨hfollows.ns, hfollows.generation, hfollows.spec⟩

end Cluster

/-! ## Who answers -/

section Serve
variable (edit : MailCredential → MailCredential → Prop)

/-- Users edit the object, any number of times. -/
inductive Disturbed : Cluster → Cluster → Prop
  | refl (w : Cluster) : Disturbed w w
  | edit {w w' : Cluster} {mc : MailCredential} (hedit : edit w.object mc)
    (h : Follows w.object mc) (rest : Disturbed (w.push mc h) w') : Disturbed w w'

/-- How the cluster answers a call.  The cache shows any version; the API server shows the
object, and takes a status only for the object it shows.  An error may be all that is
seen of a status that was stored, but a Secret is then as it was. -/
def Answers (w : Cluster) : (c : Call) → c.Answer → Cluster → Prop
  | .get, a, w' => w' = w ∧ ∀ mc, a = .ok mc → mc ∈ w.versions
  | .apiGet, a, w' => w' = w ∧ ∀ mc, a = .ok mc → mc = w.object
  | .statusUpdate mc, a, w' =>
    (mc.resourceVersion = w.object.resourceVersion ∧ w' = w.store mc.status) ∨
      (a ≠ none ∧ w' = w)
  | c, a, w' => w' = w.record (wrote ⟨c, a⟩)

/-- A call, with what users do before it is answered. -/
def serve (w : Cluster) (c : Call) (a : c.Answer) (w' : Cluster) : Prop :=
  ∃ found, Disturbed edit w found ∧ Answers found c a w'

/-- One reconcile, from its start to its end. -/
structure Round (L : CredentialLibraries) (r : Reconciler) (now : Int) (w : Cluster)
    (t : ReconcileTrace) (res : Except Bytes Int) (w' : Cluster) : Prop where
  ran : (reconcile L r now).Ran t res
  served : Served (serve edit) w t w'

end Serve

/-! ## What one call does -/

section Steps
variable {edit : MailCredential → MailCredential → Prop} {w w' : Cluster} {c : Call}
  {a : c.Answer}

theorem Disturbed.versions (h : Disturbed edit w w') : ∀ v ∈ w.versions, v ∈ w'.versions := by
  induction h with
  | refl w => exact fun v hv => hv
  | edit _ _ _ ih => exact fun v hv => ih v (List.mem_cons_of_mem _ hv)

theorem Disturbed.object (h : Disturbed edit w w') :
    Relation.ReflTransGen edit w.object w'.object := by
  induction h with
  | refl w => exact .refl
  | edit hedit _ _ ih => exact .head hedit ih

theorem Disturbed.keeps_status (hedit : ∀ mc mc', edit mc mc' → Edited mc mc')
    (h : Disturbed edit w w') {I : MailCredentialStatus → Prop}
    (hI : ∀ v ∈ w.versions, I v.status) : ∀ v ∈ w'.versions, I v.status := by
  induction h with
  | refl w => exact hI
  | edit hmc _ _ ih =>
    refine ih fun v hv => ?_
    rcases List.mem_cons.mp hv with rfl | hv
    · rw [(hedit _ _ hmc).status]
      exact hI _ List.mem_cons_self
    · exact hI v hv

theorem Disturbed.passwords (h : Disturbed edit w w') : w'.passwords = w.passwords := by
  induction h with
  | refl w => rfl
  | edit _ _ _ ih => exact ih

/-- A call leaves the object alone, or stores a status. -/
theorem Answers.object_or_store (h : Answers w c a w') :
    (w'.object = w.object ∧ w'.versions = w.versions ∧ confirmed ⟨c, a⟩ = false) ∨
      ∃ new : MailCredential, c = .statusUpdate new ∧
        new.resourceVersion = w.object.resourceVersion ∧ w' = w.store new.status := by
  cases c with
  | statusUpdate new =>
    rcases h with ⟨hversion, rfl⟩ | ⟨herr, rfl⟩
    · exact .inr ⟨new, rfl, hversion, rfl⟩
    · refine .inl ⟨rfl, rfl, ?_⟩
      cases a with
      | none => exact absurd rfl herr
      | some err => rfl
  | get | apiGet =>
    obtain ⟨rfl, -⟩ := h
    exact .inl ⟨rfl, rfl, rfl⟩
  | _ =>
    have hw' : w' = w.record (wrote ⟨_, a⟩) := h
    rw [hw']
    exact .inl ⟨Cluster.record_object _, Cluster.record_versions _, rfl⟩

/-- A call puts into Secrets what it wrote. -/
theorem Answers.passwords (h : Answers w c a w') :
    w'.passwords = (w.record (wrote ⟨c, a⟩)).passwords := by
  cases c with
  | statusUpdate new => rcases h with ⟨-, rfl⟩ | ⟨-, rfl⟩ <;> rfl
  | get | apiGet =>
    obtain ⟨rfl, -⟩ := h
    rfl
  | _ => exact congrArg Cluster.passwords h

theorem Answers.versions (h : Answers w c a w') : ∀ v ∈ w.versions, v ∈ w'.versions := by
  intro v hv
  rcases h.object_or_store with ⟨-, hsame, -⟩ | ⟨new, -, -, rfl⟩
  · exact hsame ▸ hv
  · exact List.mem_cons_of_mem _ hv

/-- What is read is a version of the object. -/
theorem Answers.read (h : Answers w c a w') {mc : MailCredential}
    (hread : (⟨c, a⟩ : Event Call Call.Answer) = ⟨.get, .ok mc⟩ ∨
      (⟨c, a⟩ : Event Call Call.Answer) = ⟨.apiGet, .ok mc⟩) : mc ∈ w'.versions := by
  rcases hread with hread | hread
  · cases hread
    obtain ⟨rfl, hmc⟩ := h
    exact hmc mc rfl
  · cases hread
    obtain ⟨rfl, hmc⟩ := h
    obtain rfl := hmc mc rfl
    exact List.mem_cons_self

end Steps

/-! ## What a reconcile does -/

/-- The passwords in Secrets once some have been written. -/
def recorded (passwords : Bytes × Bytes → Option Bytes) (written : List SecretWrite) :
    Bytes × Bytes → Option Bytes :=
  written.foldl (fun passwords w s => if s = w.1 then w.2 else passwords s) passwords

section Rounds
variable {L : CredentialLibraries} {r : Reconciler} {now : Int}
  {edit : MailCredential → MailCredential → Prop} {w w' : Cluster} {t : ReconcileTrace}
  {res : Except Bytes Int}

/-- Every answer. -/
abbrev Any : Event Call Call.Answer → Prop := fun _ => True

/-- The status of the cluster is one the reconcile came to, on an object that users may
have edited before, if no Secret was written. -/
structure Reports (L : CredentialLibraries) (r : Reconciler) (now : Int)
    (edit : MailCredential → MailCredential → Prop) (w : Cluster) (t : ReconcileTrace)
    (mc : MailCredential) (st : MailCredentialStatus) (w' : Cluster) : Prop where
  decided : decidedOn L now t = some mc
  comes : Comes L Any r mc now (writes t) st
  edits : writes t = [] → Relation.ReflTransGen edit w.object mc
  status : w'.object.status = st.stored

/-- A reconcile of `w` under way: it has read versions of the object, put what it wrote
into Secrets, and left the object to the users or stored its status. -/
structure Underway (L : CredentialLibraries) (r : Reconciler) (now : Int)
    (edit : MailCredential → MailCredential → Prop) (w w' : Cluster) (t : ReconcileTrace) :
    Prop where
  read : ∀ mc, ⟨.get, .ok mc⟩ ∈ t ∨ ⟨.apiGet, .ok mc⟩ ∈ t → mc ∈ w'.versions
  versions : ∀ v ∈ w.versions, v ∈ w'.versions
  passwords : w'.passwords = recorded w.passwords (writes t)
  fresh : ∀ cached mc t', t = ⟨.get, .ok cached⟩ :: ⟨.apiGet, .ok mc⟩ :: t' →
    Relation.ReflTransGen edit w.object mc
  object : Relation.ReflTransGen edit w.object w'.object ∨
    ¬ Unreported t ∧ ∃ mc st, Reports L r now edit w t mc st w'
  confirmed : (∃ e ∈ t, confirmed e = true) → ∃ mc st, Reports L r now edit w t mc st w'

theorem recorded_concat {passwords : Bytes × Bytes → Option Bytes} {written : List SecretWrite}
    (h : w.passwords = recorded passwords written) (new : Option SecretWrite) :
    (w.record new).passwords = recorded passwords (written ++ new.toList) := by
  rw [recorded, List.foldl_append]
  cases new with
  | none => exact h
  | some new =>
    funext s
    simp [Cluster.record, h, recorded]

theorem status_eq_of_edits (hedit : ∀ mc mc', edit mc mc' → Edited mc mc') {mc mc' : MailCredential}
    (h : Relation.ReflTransGen edit mc mc') : mc'.status = mc.status := by
  induction h with
  | refl => rfl
  | tail _ hlast ih => rw [(hedit _ _ hlast).status, ih]

theorem not_unreported_concat {e : Event Call Call.Answer} (h : ¬ Unreported t) :
    ¬ Unreported (t ++ [e]) :=
  fun hno => h fun e he => hno e (List.mem_append_left _ he)

theorem not_unreported_of_confirmed (h : ∃ e ∈ t, confirmed e = true) : ¬ Unreported t := by
  obtain ⟨⟨c, a⟩, he, hconfirmed⟩ := h
  intro hno
  cases c with
  | statusUpdate new => exact hno _ he new rfl
  | _ => cases hconfirmed

/-- Once a status is written, no Secret is. -/
theorem wrote_eq_none {c : Call} {a : c.Answer} (hcall : Protocol L Any r now t c)
    (h : ¬ Unreported t) : wrote ⟨c, a⟩ = none := by
  cases c with
  | createSecret s =>
    obtain ⟨mc, u, password, hmay, -⟩ := hcall
    exact absurd hmay.deciding.unreported h
  | patchSecret s =>
    obtain ⟨mc, u, password, hmay, -⟩ := hcall
    exact absurd hmay.deciding.unreported h
  | _ => rfl

theorem Reports.concat {w₁ w₂ found : Cluster} {mc : MailCredential} {st : MailCredentialStatus}
    {c : Call} {a : c.Answer} (hedit : ∀ mc mc', edit mc mc' → Edited mc mc')
    (h : Reports L r now edit w t mc st w₁) (hreported : ¬ Unreported t)
    (hcall : Protocol L Any r now t c) (hfound : Disturbed edit w₁ found)
    (hobject : w₂.object = found.object) :
    Reports L r now edit w (t ++ [⟨c, a⟩]) mc st w₂ := by
  have hwrites : writes (t ++ [⟨c, a⟩]) = writes t := by
    rw [writes_concat, wrote_eq_none hcall hreported]
    exact List.append_nil _
  refine ⟨decidedOn_append h.decided _, hwrites ▸ h.comes, hwrites ▸ h.edits, ?_⟩
  rw [hobject, status_eq_of_edits hedit hfound.object, h.status]

namespace Underway
variable {w₁ w₂ found : Cluster} {c : Call} {a : c.Answer}

theorem start : Underway L r now edit w w [] := by
  refine ⟨?_, fun v hv => hv, rfl, ?_, .inl .refl, ?_⟩
  · rintro mc (hmc | hmc) <;> cases hmc
  · intro cached mc t' ht'
    cases ht'
  · rintro ⟨e, he, -⟩
    cases he

/-- The reconcile decides on a version of the object. -/
theorem mem_versions {mc : MailCredential} (h : Underway L r now edit w w₁ t)
    (hdecided : decidedOn L now t = some mc) : mc ∈ w₁.versions := by
  refine h.read mc ?_
  rcases read_of_decidedOn hdecided with ⟨cached, t', rfl⟩ | ⟨⟨t', rfl⟩, -⟩
  · exact .inr (by simp)
  · exact .inl (by simp)

/-- Until a status is written, only users change the object. -/
theorem edits_found (h : Underway L r now edit w w₁ t) (hunreported : Unreported t)
    (hfound : Disturbed edit w₁ found) : Relation.ReflTransGen edit w.object found.object := by
  rcases h.object with hedits | ⟨hreported, -⟩
  · exact hedits.trans hfound.object
  · exact absurd hunreported hreported

/-- A status that is stored is one the reconcile came to. -/
theorem reports_store {new : MailCredential} {a : Option APIError}
    (h : Underway L r now edit w w₁ t) (hcall : Protocol L Any r now t (.statusUpdate new))
    (hfound : Disturbed edit w₁ found)
    (hversion : new.resourceVersion = found.object.resourceVersion) :
    ∃ mc st,
      Reports L r now edit w (t ++ [⟨.statusUpdate new, a⟩]) mc st (found.store new.status) := by
  obtain ⟨mc, hdecided, honto, hcomes, -⟩ := hcall
  have hwrites : writes (t ++ [⟨.statusUpdate new, a⟩]) = writes t := by
    rw [writes_concat]
    exact List.append_nil _
  refine ⟨mc, new.status, decidedOn_append hdecided _, hwrites ▸ hcomes, ?_, rfl⟩
  rw [hwrites]
  intro hnone
  rcases honto with ⟨hunreported, hnew⟩ | ⟨hwritten, -⟩
  · -- the object has the version it was decided on, so it is that object
    have hmc : mc ∈ found.versions := hfound.versions mc (h.mem_versions hdecided)
    have hsame : mc.resourceVersion = found.object.resourceVersion := by
      rw [← hversion, hnew]
    rw [Cluster.eq_object hmc hsame]
    exact h.edits_found hunreported hfound
  · exact absurd hnone hwritten

theorem read_step (h : Underway L r now edit w w₁ t) (hfound : Disturbed edit w₁ found)
    (hanswers : Answers found c a w₂) (mc : MailCredential)
    (hmc : ⟨.get, .ok mc⟩ ∈ t ++ [⟨c, a⟩] ∨ ⟨.apiGet, .ok mc⟩ ∈ t ++ [⟨c, a⟩]) :
    mc ∈ w₂.versions := by
  have hmono : ∀ v ∈ w₁.versions, v ∈ w₂.versions :=
    fun v hv => hanswers.versions v (hfound.versions v hv)
  simp only [List.mem_append, List.mem_singleton] at hmc
  rcases hmc with (hold | hnew) | (hold | hnew)
  · exact hmono mc (h.read mc (.inl hold))
  · exact hanswers.read (.inl hnew.symm)
  · exact hmono mc (h.read mc (.inr hold))
  · exact hanswers.read (.inr hnew.symm)

theorem fresh_step (h : Underway L r now edit w w₁ t) (hfound : Disturbed edit w₁ found)
    (hanswers : Answers found c a w₂) (cached mc : MailCredential) (t' : ReconcileTrace)
    (ht' : t ++ [⟨c, a⟩] = ⟨.get, .ok cached⟩ :: ⟨.apiGet, .ok mc⟩ :: t') :
    Relation.ReflTransGen edit w.object mc := by
  rcases List.eq_nil_or_concat t' with rfl | ⟨init, last, rfl⟩
  · -- the object has just been read
    have happend : t ++ [⟨c, a⟩] = [⟨.get, .ok cached⟩] ++ [⟨.apiGet, .ok mc⟩] := ht'
    obtain ⟨rfl, hlast⟩ := List.append_inj' happend rfl
    cases List.head_eq_of_cons_eq hlast
    obtain ⟨rfl, hmc⟩ := hanswers
    obtain rfl := hmc mc rfl
    refine h.edits_found (fun e he new => ?_) hfound
    obtain rfl := List.mem_singleton.mp he
    exact fun hc => by cases hc
  · rw [List.concat_eq_append, ← List.cons_append, ← List.cons_append] at ht'
    exact h.fresh cached mc init (List.append_inj' ht' rfl).1

theorem step (hedit : ∀ mc mc', edit mc mc' → Edited mc mc') (h : Underway L r now edit w w₁ t)
    (hcall : Protocol L Any r now t c) (hserve : serve edit w₁ c a w₂) :
    Underway L r now edit w w₂ (t ++ [⟨c, a⟩]) := by
  obtain ⟨found, hfound, hanswers⟩ := hserve
  have hversions : ∀ v ∈ w.versions, v ∈ w₂.versions :=
    fun v hv => hanswers.versions v (hfound.versions v (h.versions v hv))
  have hpasswords : w₂.passwords = recorded w.passwords (writes (t ++ [⟨c, a⟩])) := by
    rw [hanswers.passwords, writes_concat]
    exact recorded_concat (hfound.passwords.trans h.passwords) _
  refine ⟨h.read_step hfound hanswers, hversions, hpasswords, h.fresh_step hfound hanswers, ?_, ?_⟩
  · rcases hanswers.object_or_store with ⟨hobject, -⟩ | ⟨new, rfl, hversion, rfl⟩
    · rcases h.object with hedits | ⟨hreported, mc, st, hreports⟩
      · rw [hobject]
        exact .inl (hedits.trans hfound.object)
      · exact .inr ⟨not_unreported_concat hreported, mc, st,
          hreports.concat hedit hreported hcall hfound hobject⟩
    · refine .inr ⟨fun hno => ?_, h.reports_store hcall hfound hversion⟩
      exact hno _ (List.mem_append_right _ List.mem_cons_self) new rfl
  · intro hconfirmed
    rcases hanswers.object_or_store with ⟨hobject, -, hunconfirmed⟩ | ⟨new, rfl, hversion, rfl⟩
    · have hbefore : ∃ e ∈ t, Controller.confirmed e = true := by
        obtain ⟨e, he, htrue⟩ := hconfirmed
        rcases List.mem_append.mp he with hold | hlast
        · exact ⟨e, hold, htrue⟩
        · obtain rfl := List.mem_singleton.mp hlast
          rw [hunconfirmed] at htrue
          cases htrue
      obtain ⟨mc, st, hreports⟩ := h.confirmed hbefore
      exact ⟨mc, st,
        hreports.concat hedit (not_unreported_of_confirmed hbefore) hcall hfound hobject⟩
    · exact h.reports_store hcall hfound hversion

end Underway

/-- Every call of a reconcile follows the protocol. -/
theorem Round.meets (h : Round edit L r now w t res w') : Meets Any (Protocol L Any r now) t :=
  (h.ran.keeps (reconcile_keeps L Any r now) fun _ _ => trivial).1

/-- **What one reconcile does to the cluster.** -/
theorem Round.underway (hedit : ∀ mc mc', edit mc mc' → Edited mc mc')
    (h : Round edit L r now w t res w') : Underway L r now edit w w' t := by
  exact h.served.keeps (J := fun w' t => Underway L r now edit w w' t) h.meets .start
    fun w₁ t c a w₂ h₁ hcall hserve => h₁.step hedit hcall hserve

/-- **What every status keeps, the statuses of all versions keep**, the cached ones
included. -/
theorem Round.versions (hedit : ∀ mc mc', edit mc mc' → Edited mc mc')
    (h : Round edit L r now w t res w') {I : MailCredentialStatus → Prop}
    (hcomes : ∀ mc written st, I mc.status → Comes L Any r mc now written st → I st.stored)
    (hI : ∀ v ∈ w.versions, I v.status) : ∀ v ∈ w'.versions, I v.status := by
  have hkeeps : (∀ v ∈ w'.versions, I v.status) ∧ Underway L r now edit w w' t := by
    refine h.served.keeps (J := fun w' t => (∀ v ∈ w'.versions, I v.status) ∧
      Underway L r now edit w w' t) h.meets ⟨hI, .start⟩ ?_
    rintro w₁ t c a w₂ ⟨hI₁, hunderway⟩ hcall hserve
    refine ⟨?_, hunderway.step hedit hcall hserve⟩
    obtain ⟨found, hfound, hanswers⟩ := hserve
    have hfoundI := hfound.keeps_status hedit hI₁
    rcases hanswers.object_or_store with ⟨-, hsame, -⟩ | ⟨new, rfl, -, rfl⟩
    · rw [hsame]
      exact hfoundI
    · intro v hv
      rcases List.mem_cons.mp hv with rfl | hv
      · obtain ⟨mc, hdecided, -, hmade, -⟩ := hcall
        exact hcomes mc _ _ (hI₁ mc (hunderway.mem_versions hdecided)) hmade
      · exact hfoundI v hv
  exact hkeeps.1

end Rounds

/-! ## A cluster where nothing fails -/

/-- Answers that grant what they can; new passwords are `password`. -/
def obliging (password : Bytes) (w : Cluster) : (c : Call) → c.Answer × Cluster
  | .get => (.ok w.object, w)
  | .apiGet => (.ok w.object, w)
  | .getServiceAccount _ _ => (none, w)
  | .guardOK => ((true, []), w)
  | .generatePassword => (.ok password, w)
  | .createSecret s =>
    if (w.passwords (s.ns, s.name)).isSome then (some ⟨.alreadyExists, []⟩, w)
    else (none, w.record (wrote ⟨.createSecret s, none⟩))
  | .patchSecret p => (none, w.record (wrote ⟨.patchSecret p, none⟩))
  | .statusUpdate mc =>
    if mc.resourceVersion = w.object.resourceVersion then (none, w.store mc.status)
    else (some ⟨.conflict, []⟩, w)
  | .contextAlive => (true, w)

/-- A reconcile with those answers. -/
def Cluster.reconciling (L : CredentialLibraries) (r : Reconciler) (now : Int) (password : Bytes)
    (w : Cluster) : Cluster × ReconcileTrace × Except Bytes Int :=
  (reconcile L r now).run (obliging password) w []

theorem Cluster.round_reconciling (edit : MailCredential → MailCredential → Prop)
    (L : CredentialLibraries) (r : Reconciler) (now : Int) (password : Bytes) (w : Cluster) :
    Round edit L r now w (w.reconciling L r now password).2.1 (w.reconciling L r now password).2.2
      (w.reconciling L r now password).1 := by
  refine ⟨Prog.ran_run _ _ _, served_run (fun w c => ⟨w, .refl w, ?_⟩) _ _⟩
  cases c with
  | get => exact ⟨rfl, fun mc hmc => by cases hmc; exact List.mem_cons_self⟩
  | apiGet => exact ⟨rfl, fun mc hmc => by cases hmc; rfl⟩
  | createSecret s =>
    by_cases hexists : (w.passwords (s.ns, s.name)).isSome = true
    · simp only [obliging, hexists, if_true]
      rfl
    · simp only [obliging, hexists]
      rfl
  | statusUpdate mc =>
    by_cases hversion : mc.resourceVersion = w.object.resourceVersion
    · simp only [obliging, hversion, if_true]
      exact .inl ⟨hversion, rfl⟩
    · simp only [obliging, hversion, if_false]
      exact .inr ⟨by simp, rfl⟩
  | _ => rfl

/-- A controller that excludes no namespace. -/
def openReconciler : Reconciler := ⟨⟨[], []⟩, true, lit "sigillum-smtp", 587⟩

/-- A cluster with a new credential. -/
def newCluster : Cluster :=
  ⟨{ generatedCredential with status := .empty }, [], nofun, fun _ => none⟩

end Controller
end Sigillum
