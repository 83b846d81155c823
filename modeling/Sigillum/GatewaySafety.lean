import Mathlib.Data.List.Induction
import Sigillum.Gateway

/-! # Only checked messages reach a backend

What holds of every send, at any point of any interleaving with others.  A send
hands its message to a driver at most once, and then everything it was to check
has been checked (`Cleared`), on the data it hands over.  A send that has ended
wrote one audit record, which agrees with its result and with the driver's answer
(`Settled`).

The validity cache is the one thing sends share.  Each entry was computed from an
object with its UID and generation (`ValidityCache.Sound`), so a lookup answers
what `validate` would.
-/
namespace Sigillum
namespace Gateway
open Runes Bytes Interaction

/-! ## Events of a send -/

/-- The audit record an event writes. -/
def recordOf : Event Call Call.Answer → Option AuditEvent
  | ⟨.record ev, _⟩ => some ev
  | _ => none

/-- The driver's answer, if the event hands it the message. -/
def deliveryOf : Event Call Call.Answer → Option (Except Err SendResult)
  | ⟨.send _, outcome⟩ => some outcome
  | ⟨.sendRaw _ _ _, outcome⟩ => some outcome
  | _ => none

def records (t : Trace Call Call.Answer) : List AuditEvent := t.filterMap recordOf

def deliveries (t : Trace Call Call.Answer) : List (Except Err SendResult) :=
  t.filterMap deliveryOf

/-- Calls that neither write a record nor reach the driver's message functions. -/
def Call.Quiet : Call → Prop
  | .record _ | .send _ | .sendRaw _ _ _ => False
  | _ => True

/-- From `t` to `t'` nothing was recorded or delivered. -/
structure QuietSince (t t' : Trace Call Call.Answer) : Prop where
  subset : t ⊆ t'
  records : records t' = records t
  deliveries : deliveries t' = deliveries t

namespace QuietSince

variable {t t' t'' : Trace Call Call.Answer}

theorem refl (t : Trace Call Call.Answer) : QuietSince t t := ⟨fun _ h => h, rfl, rfl⟩

theorem trans (h : QuietSince t t') (h' : QuietSince t' t'') : QuietSince t t'' :=
  ⟨fun _ he => h'.subset (h.subset he), h'.records.trans h.records,
    h'.deliveries.trans h.deliveries⟩

theorem append {new : Trace Call Call.Answer} (h : ∀ e ∈ new, e.1.Quiet) :
    QuietSince t (t ++ new) := by
  have hrecords : Gateway.records new = [] :=
    List.filterMap_eq_nil_iff.mpr fun ⟨c, a⟩ he => by cases c <;> first | rfl | exact (h _ he).elim
  have hdeliveries : Gateway.deliveries new = [] :=
    List.filterMap_eq_nil_iff.mpr fun ⟨c, a⟩ he => by cases c <;> first | rfl | exact (h _ he).elim
  refine ⟨List.subset_append_left _ _, ?_, ?_⟩
  · rw [Gateway.records, List.filterMap_append]
    exact (congrArg _ hrecords).trans (List.append_nil _)
  · rw [Gateway.deliveries, List.filterMap_append]
    exact (congrArg _ hdeliveries).trans (List.append_nil _)

theorem concat {c : Call} (a : c.Answer) (h : c.Quiet) : QuietSince t (t ++ [⟨c, a⟩]) :=
  append fun e he => by rw [List.mem_singleton.mp he]; exact h

end QuietSince

/-! ## What is checked before a delivery -/

/-- The labels `Match` is given: those read, if a policy asks for them. -/
def LabelsRead (req : Request) (t : Trace Call Call.Answer) (policies : List MailPolicy)
    (labels : Option (List (Bytes × Bytes))) : Prop :=
  if needsSALabels policies then
    ∃ res, ⟨.getServiceAccount req.identity.ns req.identity.serviceAccount, res⟩ ∈ t ∧
      labels = res.toOption
  else labels = none

/-- The backend a policy refers to was read, is valid and is ready; its spec is `spec`. -/
def BackendReady (L : Libraries) (t : Trace Call Call.Answer) (p : MailPolicy)
    (spec : BackendSpec) : Prop :=
  match p.spec.backendRef.kind with
  | .mailBackend => ∃ mb, ⟨.getMailBackend p.ns p.spec.backendRef.name, .ok mb⟩ ∈ t ∧
      mb.validateBackend L = none ∧ backendIsReady mb.status = true ∧ mb.spec = spec
  | .clusterMailBackend | .unset => ∃ cmb,
      ⟨.getClusterMailBackend p.spec.backendRef.name, .ok cmb⟩ ∈ t ∧
      cmb.validateBackend L = none ∧ backendIsReady cmb.status = true ∧ cmb.spec = spec
  | .other _ => False

/-- The policy of the request was matched, is valid and allows the message. -/
structure Allowed (L : Libraries) (req : Request) (t : Trace Call Call.Answer) (p : MailPolicy) :
    Prop where
  matched : ∃ policies labels, ⟨.listInNamespace req.identity.ns, policies⟩ ∈ t ∧
    LabelsRead req t policies labels ∧ policyMatch L policies (req.caller labels) = some p
  ns : p.ns = req.identity.ns
  valid : validateMailPolicy L p = none
  allowed : evaluate L (some p) req.view = .allowed p

/-- The call hands over what the policy was evaluated on. -/
def HandsOver (req : Request) : Call → Prop
  | .send msg => req.raw = none ∧ msg = req.message ∧ msg.recipients = req.view.recipients
  | .sendRaw envelopeFrom recipients raw => req.raw = some raw ∧
      envelopeFrom = req.view.envelopeFrom ∧ recipients = req.view.recipients
  | _ => False

/-- The backend of the policy is ready and lets the senders pass. -/
def BackendAllows (L : Libraries) (req : Request) (t : Trace Call Call.Answer) (p : MailPolicy) :
    Prop :=
  ∃ spec, BackendReady L t p spec ∧ ∀ allowed, spec.allowedSenders = some allowed →
    ∀ sender ∈ req.view.senders, senderAllowed L sender allowed = true

/-- The limiter admitted the request, if the policy caps a window. -/
def Admitted (t : Trace Call Call.Answer) (p : MailPolicy) : Prop :=
  (limitsOf p).isNone = false → ∃ answer,
    ⟨.allow (limiterKey p) (limitsOf p), .ok answer⟩ ∈ t ∧ answer.ok = true

/-- Everything that is to be checked before the call `c` of a driver was checked in `t`. -/
structure Cleared (L : Libraries) (req : Request) (t : Trace Call Call.Answer) (c : Call)
    (p : MailPolicy) : Prop extends Allowed L req t p where
  handsOver : HandsOver req c
  backend : BackendAllows L req t p
  admitted : Admitted t p

/-- What a send relies on: objects are in `W`, and a cached validity is that of
every object with the UID and the generation. -/
def Truthful (L : Libraries) (W : Object → Prop) : Event Call Call.Answer → Prop
  | ⟨.listInNamespace _, policies⟩ => ∀ p ∈ policies, W (.policy p)
  | ⟨.getMailBackend _ _, res⟩ => ∀ mb, res = .ok mb → W (.mailBackend mb)
  | ⟨.getClusterMailBackend _, res⟩ => ∀ cmb, res = .ok cmb → W (.clusterMailBackend cmb)
  | ⟨.lookup uid, v⟩ => ∀ o v', W o → o.Stored → o.uid = uid → v = some v' →
      o.generation = v'.generation → v'.err = o.validity L
  | _ => True

/-- What a send guarantees with each call, given what it did before. -/
def Guarantee (L : Libraries) (W : Object → Prop) (req : Request) (t : Trace Call Call.Answer) :
    Call → Prop
  | .store uid v => ∃ o, W o ∧ o.Stored ∧ o.uid = uid ∧ o.generation = v.generation ∧
      v.err = o.validity L
  | .send msg => deliveries t = [] ∧ ∃ p, Cleared L req t (.send msg) p
  | .sendRaw envelopeFrom recipients raw => deliveries t = [] ∧
      ∃ p, Cleared L req t (.sendRaw envelopeFrom recipients raw) p
  | _ => True

/-- A send that has ended wrote one record, which says whether it was accepted;
it was if the driver was called and returned no error. -/
structure Settled (t : Trace Call Call.Answer) (res : Result) : Prop where
  recorded : ∃ ev, records t = [ev] ∧ (ev.decision = .accept ↔ res.status = .accepted)
  accepted : res.status = .accepted ↔ ∃ r, deliveries t = [.ok r]

/-! ## The validity cache -/

theorem Object.validity_withoutStatus {L : Libraries} {a b : Object}
    (h : a.withoutStatus = b.withoutStatus) : a.validity L = b.validity L := by
  have herase : ∀ o : Object, o.withoutStatus.validity L = o.validity L := by
    intro o
    cases o <;> rfl
  rw [← herase a, h, herase b]

/-- Every entry was computed from an object with its UID and generation. -/
def ValidityCache.Sound (L : Libraries) (W : Object → Prop) (m : ValidityCache) : Prop :=
  ∀ uid v, m.lookup uid = some v → ∃ o, W o ∧ o.Stored ∧ o.uid = uid ∧
    o.generation = v.generation ∧ v.err = o.validity L

section Cache
variable {L : Libraries} {W : Object → Prop}

theorem ValidityCache.sound_empty : ValidityCache.Sound L W ∅ := by
  intro uid v h
  rw [AList.lookup_empty] at h
  cases h

theorem ValidityCache.Sound.store {m : ValidityCache} {uid : Bytes} {v : Validity}
    (hm : m.Sound L W) (hv : ∃ o, W o ∧ o.Stored ∧ o.uid = uid ∧ o.generation = v.generation ∧
      v.err = o.validity L) : (m.store uid v).Sound L W := by
  -- what is kept when the cache is full is nothing, which is sound as well
  have hkept :
      (if maxValidityEntries ≤ m.entries.length then ∅ else m : ValidityCache).Sound L W := by
    split
    · exact sound_empty
    · exact hm
  intro uid' v' h
  by_cases huid : uid' = uid
  · subst huid
    rw [ValidityCache.store, AList.lookup_insert] at h
    obtain rfl := Option.some.inj h
    exact hv
  · rw [ValidityCache.store, AList.lookup_insert_ne huid] at h
    exact hkept uid' v' h

/-- Over a sound cache every answer is truthful, and calls that keep the
guarantee keep the cache sound. -/
theorem answers_truthful (hW : Versioned W) (req : Request) (t : Trace Call Call.Answer)
    (m : ValidityCache) (c : Call) (a : c.Answer) (m' : ValidityCache) (hm : m.Sound L W)
    (hc : Guarantee L W req t c) (h : answers W m c a m') :
    m'.Sound L W ∧ Truthful L W ⟨c, a⟩ := by
  cases c with
  | store uid v =>
    obtain rfl : m' = m.store uid v := h
    exact ⟨hm.store hc, trivial⟩
  | lookup uid =>
    obtain ⟨rfl, rfl⟩ : a = m.lookup uid ∧ m' = m := h
    refine ⟨hm, fun o v ho hstored huid hv hgen => ?_⟩
    obtain ⟨o', ho', -, huid', hgen', herr⟩ := hm uid v hv
    rw [herr]
    exact (Object.validity_withoutStatus (hW o o' ho ho' hstored (huid.trans huid'.symm)
      (hgen.trans hgen'.symm))).symm
  | listInNamespace ns | getMailBackend ns name | getClusterMailBackend name =>
    obtain ⟨htrue, rfl⟩ := h
    exact ⟨hm, htrue⟩
  | _ =>
    obtain rfl : m' = m := h
    exact ⟨hm, trivial⟩

end Cache

/-! ## The stages -/

/-- Calls that nothing else depends on. -/
def Call.Incidental : Call → Prop
  | .getSecret _ _ | .newDriver _ | .refund _ | .close => True
  | _ => False

theorem Call.Incidental.quiet {c : Call} (h : c.Incidental) : c.Quiet := by
  cases c <;> trivial

section Opening
variable {L : Libraries} {S : Call → Prop} (hsecret : ∀ ns name, S (.getSecret ns name))
include hsecret

theorem backendSecret_only (refPath what name refNs fallbackNs : Bytes) :
    (backendSecret L refPath what name refNs fallbackNs).Only S := by
  unfold backendSecret
  split
  · exact Prog.only_pure
  · dsimp only
    generalize (if fallbackNs ≠ [] then fallbackNs else refNs) = ns
    split
    · exact Prog.only_pure
    · refine Prog.Only.call (hsecret _ _) fun res => ?_
      split <;> exact Prog.only_pure

theorem smtpCredentials_only (smtp : SMTPBackendSpec) (authType : AuthType) (fallbackNs : Bytes) :
    (smtpCredentials L smtp authType fallbackNs).Only S := by
  unfold smtpCredentials
  split
  · exact Prog.only_pure
  · split
    · exact Prog.only_pure
    · refine Prog.Only.bind (backendSecret_only hsecret ..) fun res => ?_
      split <;> exact Prog.only_pure

theorem caPool_only (ref : CASecretReference) (fallbackNs : Bytes) :
    (caPool L ref fallbackNs).Only S := by
  refine Prog.Only.bind (backendSecret_only hsecret ..) fun res => ?_
  split
  · exact Prog.only_pure
  · simp only
    split
    · exact Prog.only_pure
    · split <;> exact Prog.only_pure

theorem smtpRootCAs_only (smtp : SMTPBackendSpec) (fallbackNs : Bytes) :
    (smtpRootCAs L smtp fallbackNs).Only S := by
  unfold smtpRootCAs
  split
  · exact Prog.only_pure
  · refine Prog.Only.bind (caPool_only hsecret ..) fun res => ?_
    split <;> exact Prog.only_pure

theorem resolveBackendConfig_only (backend : Backend) :
    (resolveBackendConfig L backend).Only S := by
  unfold resolveBackendConfig
  split
  · split
    · exact Prog.only_pure
    · refine Prog.Only.bind (smtpCredentials_only hsecret ..) fun res => ?_
      split
      · exact Prog.only_pure
      · refine Prog.Only.bind (smtpRootCAs_only hsecret ..) fun res => ?_
        split <;> exact Prog.only_pure
  · split
    · exact Prog.only_pure
    · refine Prog.Only.bind (backendSecret_only hsecret ..) fun res => ?_
      split
      · exact Prog.only_pure
      · simp only
        split <;> exact Prog.only_pure
  · exact Prog.only_pure

/-- Opening a driver reads Secrets and builds the driver, nothing else. -/
theorem openDriver_only (hdriver : ∀ cfg, S (.newDriver cfg)) (backend : Backend) :
    (openDriver L backend).Only S := by
  refine Prog.Only.bind (resolveBackendConfig_only hsecret backend) fun res => ?_
  split
  · exact Prog.only_pure
  · exact Prog.only_perform.mpr (hdriver _)

end Opening

section Reading
variable {L : Libraries} {S : Call → Prop} (hlookup : ∀ uid, S (.lookup uid))
  (hstore : ∀ uid v, S (.store uid v))
include hlookup hstore

theorem check_only (o : Object) : (check L o).Only S := by
  unfold check
  split
  · exact Prog.only_pure
  · refine Prog.Only.call (hlookup _) fun v => ?_
    split
    · exact Prog.only_pure
    · exact Prog.Only.call (hstore _ _) fun _ => Prog.only_pure

theorem readyBackend_only (shown : Bytes) (o : Object) (backend : Backend) :
    (readyBackend L shown o backend).Only S := by
  refine Prog.Only.bind (check_only hlookup hstore o) fun v => ?_
  split
  · exact Prog.only_pure
  · split <;> exact Prog.only_pure

/-- Finding the backend of a policy reads it and asks the cache. -/
theorem backendForPolicy_only (hmailBackend : ∀ ns name, S (.getMailBackend ns name))
    (hclusterMailBackend : ∀ name, S (.getClusterMailBackend name)) (p : MailPolicy) :
    (backendForPolicy L p).Only S := by
  unfold backendForPolicy
  cases p.spec.backendRef.kind with
  | other kind => exact Prog.only_pure
  | mailBackend =>
    refine Prog.Only.call (hmailBackend _ _) fun res => ?_
    cases res with
    | error err => exact Prog.only_pure
    | ok b => exact readyBackend_only hlookup hstore ..
  | clusterMailBackend | unset =>
    refine Prog.Only.call (hclusterMailBackend _) fun res => ?_
    cases res with
    | error err => exact Prog.only_pure
    | ok b => exact readyBackend_only hlookup hstore ..

end Reading

theorem serviceAccountLabels_only {S : Call → Prop} {req : Request}
    (hserviceAccount : ∀ ns name, S (.getServiceAccount ns name)) (policies : List MailPolicy) :
    (serviceAccountLabels req policies).Only S := by
  unfold serviceAccountLabels
  split
  · refine Prog.Only.call (hserviceAccount _ _) fun res => ?_
    cases res <;> exact Prog.only_pure
  · exact Prog.only_pure

theorem transmit_only {S : Call → Prop} {req : Request} (hsend : ∀ msg, S (.send msg))
    (hsendRaw : ∀ envelopeFrom recipients raw, S (.sendRaw envelopeFrom recipients raw))
    (d : Driver) (key : Bytes) : (transmit req d key).Only S := by
  unfold transmit
  split
  · split
    · exact Prog.only_perform.mpr (hsendRaw _ _ _)
    · exact Prog.only_pure
  · exact Prog.only_perform.mpr (hsend _)

theorem giveBack_only (p : MailPolicy) (charged : Bool) :
    (giveBack p charged).Only Call.Incidental := by
  unfold giveBack
  split
  · exact Prog.Only.call trivial fun _ => Prog.only_pure
  · exact Prog.only_pure

section Stages
variable {L : Libraries} {W : Object → Prop} {req : Request} {t : Trace Call Call.Answer}

theorem keeps_of_only {α : Type} {prog : Pipeline α} (h : prog.Only Call.Incidental) :
    prog.Keeps (Truthful L W) (Guarantee L W req) (fun t' _ => QuietSince t t') t := by
  have hG : ∀ t c, Call.Incidental c → Guarantee L W req t c := by
    intro t c hc
    cases c <;> trivial
  refine (h.keeps hG t).mono ?_
  rintro t' a ⟨new, rfl, hnew⟩
  exact .append fun e he => (hnew e he).quiet

/-- `check` returns the validity of the object, cached or not. -/
theorem check_keeps {o : Object} (ho : W o) :
    (check L o).Keeps (Truthful L W) (Guarantee L W req)
      (fun t' v => QuietSince t t' ∧ v = o.validity L) t := by
  unfold check
  split
  · exact ⟨.refl t, rfl⟩
  · rename_i hstored
    obtain ⟨huid, hgen⟩ := not_or.mp hstored
    refine Prog.keeps_call.mpr ⟨trivial, fun v hv => ?_⟩
    split
    · rename_i v' hv'
      obtain ⟨hsome, hgen'⟩ := Option.filter_eq_some_iff.mp hv'
      exact ⟨.concat _ (by trivial),
        hv o v' ho ⟨huid, hgen⟩ rfl hsome (of_decide_eq_true hgen').symm⟩
    · refine Prog.keeps_call.mpr ⟨⟨o, ho, ⟨huid, hgen⟩, rfl, rfl, rfl⟩, fun _ _ => ?_⟩
      exact ⟨(QuietSince.concat _ (by trivial)).trans (.concat _ (by trivial)), rfl⟩

-- the errors carry texts, which `nofun` would evaluate
theorem error_ne_ok {α : Type} {err : Err} {a : α} : (Except.error err : Except Err α) ≠ .ok a :=
  nofun

theorem readyBackend_keeps {o : Object} (ho : W o) (shown : Bytes) (backend : Backend) :
    (readyBackend L shown o backend).Keeps (Truthful L W) (Guarantee L W req) (fun t' res =>
      QuietSince t t' ∧ ∀ b, res = .ok b →
        b = backend ∧ o.validity L = none ∧ backendIsReady backend.status = true) t := by
  refine Prog.keeps_bind.mpr ((check_keeps ho).mono ?_)
  rintro t' v ⟨hquiet, rfl⟩
  split
  · exact ⟨hquiet, fun _ hb => absurd hb error_ne_ok⟩
  · rename_i hvalid
    split
    · rename_i hready
      exact ⟨hquiet, fun b hb => ⟨(Except.ok.inj hb).symm, hvalid, hready⟩⟩
    · exact ⟨hquiet, fun _ hb => absurd hb error_ne_ok⟩

/-- A backend that is returned was read, is valid and is ready. -/
theorem backendForPolicy_keeps (p : MailPolicy) :
    (backendForPolicy L p).Keeps (Truthful L W) (Guarantee L W req) (fun t' res =>
      QuietSince t t' ∧ ∀ b, res = .ok b → BackendReady L t' p b.spec) t := by
  unfold backendForPolicy BackendReady
  cases p.spec.backendRef.kind with
  | other kind => exact ⟨.refl t, fun _ hb => absurd hb error_ne_ok⟩
  | mailBackend =>
    refine Prog.keeps_call.mpr ⟨trivial, fun res hres => ?_⟩
    cases res with
    | error err => exact ⟨.concat _ (by trivial), fun _ hb => absurd hb error_ne_ok⟩
    | ok mb =>
      refine (readyBackend_keeps (hres mb rfl) _ _).mono fun t' res h => ?_
      refine ⟨(QuietSince.concat _ (by trivial)).trans h.1, fun b hb => ?_⟩
      obtain ⟨rfl, hvalid, hready⟩ := h.2 b hb
      exact ⟨mb, h.1.subset (List.mem_append_right t List.mem_cons_self), hvalid, hready, rfl⟩
  | clusterMailBackend | unset =>
    refine Prog.keeps_call.mpr ⟨trivial, fun res hres => ?_⟩
    cases res with
    | error err => exact ⟨.concat _ (by trivial), fun _ hb => absurd hb error_ne_ok⟩
    | ok cmb =>
      refine (readyBackend_keeps (hres cmb rfl) _ _).mono fun t' res h => ?_
      refine ⟨(QuietSince.concat _ (by trivial)).trans h.1, fun b hb => ?_⟩
      obtain ⟨rfl, hvalid, hready⟩ := h.2 b hb
      exact ⟨cmb, h.1.subset (List.mem_append_right t List.mem_cons_self), hvalid, hready, rfl⟩

theorem records_concat (t : Trace Call Call.Answer) (e : Event Call Call.Answer) :
    records (t ++ [e]) = records t ++ (recordOf e).toList := by
  cases h : recordOf e <;> simp [records, h]

theorem deliveries_concat (t : Trace Call Call.Answer) (e : Event Call Call.Answer) :
    deliveries (t ++ [e]) = deliveries t ++ (deliveryOf e).toList := by
  cases h : deliveryOf e <;> simp [deliveries, h]

/-- Recording a refusal ends a send that had no record and no successful delivery. -/
theorem Settled.reject {ev : AuditEvent} {res : Result} (hrecords : records t = [])
    (hdeliveries : ∀ r, deliveries t ≠ [.ok r]) (hev : ev.decision = .reject)
    (hres : res.status ≠ .accepted) : Settled (t ++ [⟨.record ev, ()⟩]) res := by
  constructor
  · refine ⟨ev, by rw [records_concat, hrecords]; rfl, fun h => ?_, fun h => absurd h hres⟩
    rw [hev] at h
    cases h
  · rw [deliveries_concat]
    refine ⟨fun h => absurd h hres, fun ⟨r, hr⟩ => absurd ?_ (hdeliveries r)⟩
    rw [← hr]
    exact (List.append_nil _).symm

theorem Settled.of_quiet {t' : Trace Call Call.Answer} {res : Result} (h : Settled t res)
    (hquiet : QuietSince t t') : Settled t' res := by
  constructor
  · rw [hquiet.records]
    exact h.recorded
  · rw [hquiet.deliveries]
    exact h.accepted

/-- Nothing has been recorded, and `outcome` says what was delivered. -/
structure Outcome (t : Trace Call Call.Answer) (outcome : Except Err SendResult) : Prop where
  records : records t = []
  delivered : ∀ r, outcome = .ok r ↔ deliveries t = [.ok r]

/-- Nothing has been recorded or delivered. -/
structure Pending (t : Trace Call Call.Answer) : Prop where
  records : records t = []
  deliveries : deliveries t = []

theorem Pending.of_quiet {t' : Trace Call Call.Answer} (h : Pending t) (hquiet : QuietSince t t') :
    Pending t' :=
  ⟨hquiet.records.trans h.records, hquiet.deliveries.trans h.deliveries⟩

theorem Pending.ne_ok (h : Pending t) (r : SendResult) : Gateway.deliveries t ≠ [.ok r] := by
  rw [h.deliveries]
  exact nofun

theorem Outcome.of_quiet {t' : Trace Call Call.Answer} {outcome : Except Err SendResult}
    (h : Outcome t outcome) (hquiet : QuietSince t t') : Outcome t' outcome :=
  ⟨hquiet.records.trans h.records, fun r => by rw [hquiet.deliveries]; exact h.delivered r⟩

theorem Outcome.ne_ok {err : Err} (h : Outcome t (.error err)) (r : SendResult) :
    deliveries t ≠ [.ok r] :=
  fun hr => error_ne_ok ((h.delivered r).mpr hr)

theorem deny_keeps {policy : Bytes} {reason : DenyReason} {detail backend : Bytes}
    (hrecords : records t = []) (hdeliveries : ∀ r, deliveries t ≠ [.ok r]) :
    (deny req policy reason detail backend).Keeps (Truthful L W) (Guarantee L W req) Settled t :=
  Prog.keeps_call.mpr ⟨trivial, fun _ _ => .reject hrecords hdeliveries rfl (by simp)⟩

theorem notReady_keeps {p : MailPolicy} {backend : Bytes} {err : Err} (h : Pending t) :
    (notReady req p backend err).Keeps (Truthful L W) (Guarantee L W req) Settled t :=
  Prog.keeps_call.mpr ⟨trivial, fun _ _ => .reject h.records h.ne_ok rfl (by simp)⟩

/-- Whatever the driver answered, the send ends with one record that says so. -/
theorem conclude_keeps {p : MailPolicy} {key : Bytes} {charged : Bool}
    {outcome : Except Err SendResult} (h : Outcome t outcome) :
    (conclude req p key charged outcome).Keeps (Truthful L W) (Guarantee L W req) Settled t := by
  unfold conclude
  cases outcome with
  | ok r =>
    refine Prog.keeps_call.mpr ⟨trivial, fun _ _ => ?_⟩
    constructor
    · exact ⟨_, by rw [records_concat, h.records]; rfl, by simp [Request.event]⟩
    · refine ⟨fun _ => ⟨r, ?_⟩, fun _ => rfl⟩
      rw [deliveries_concat, (h.delivered r).mp rfl]
      rfl
  | error err =>
    dsimp only
    split
    · refine Prog.keeps_bind.mpr ((keeps_of_only (giveBack_only p charged)).mono ?_)
      intro t' _ hquiet
      have h' := h.of_quiet hquiet
      exact deny_keeps h'.records h'.ne_ok
    · refine Prog.keeps_call.mpr ⟨trivial, fun _ _ => ?_⟩
      refine Prog.keeps_bind.mpr ((keeps_of_only (giveBack_only p _)).mono ?_)
      intro t' _ hquiet
      exact (Settled.reject h.records h.ne_ok rfl (by simp)).of_quiet hquiet

theorem LabelsRead.mono {t' : Trace Call Call.Answer} {policies : List MailPolicy}
    {labels : Option (List (Bytes × Bytes))} (h : LabelsRead req t policies labels)
    (hsub : t ⊆ t') : LabelsRead req t' policies labels := by
  unfold LabelsRead at h ⊢
  split
  · rename_i hneeds
    rw [if_pos hneeds] at h
    obtain ⟨res, hres, hlabels⟩ := h
    exact ⟨res, hsub hres, hlabels⟩
  · rename_i hneeds
    rw [if_neg hneeds] at h
    exact h

theorem BackendReady.mono {t' : Trace Call Call.Answer} {p : MailPolicy} {spec : BackendSpec}
    (h : BackendReady L t p spec) (hsub : t ⊆ t') : BackendReady L t' p spec := by
  unfold BackendReady at h ⊢
  cases hkind : p.spec.backendRef.kind with
  | other kind =>
    rw [hkind] at h
    exact h
  | mailBackend | clusterMailBackend | unset =>
    rw [hkind] at h
    obtain ⟨b, hread, hrest⟩ := h
    exact ⟨b, hsub hread, hrest⟩

theorem Allowed.mono {t' : Trace Call Call.Answer} {p : MailPolicy} (h : Allowed L req t p)
    (hsub : t ⊆ t') : Allowed L req t' p := by
  obtain ⟨policies, labels, hlist, hlabels, hmatch⟩ := h.matched
  exact ⟨⟨policies, labels, hsub hlist, hlabels.mono hsub, hmatch⟩, h.ns, h.valid, h.allowed⟩

/-- The driver is called, at most once, with what was checked. -/
theorem transmit_keeps {p : MailPolicy} {d : Driver} {key : Bytes} (h : Pending t)
    (hallowed : Allowed L req t p) (hbackend : BackendAllows L req t p) (hadmitted : Admitted t p) :
    (transmit req d key).Keeps (Truthful L W) (Guarantee L W req) Outcome t := by
  have hdelivered : ∀ (c : Call) (a : c.Answer) (outcome : Except Err SendResult),
      recordOf ⟨c, a⟩ = none → deliveryOf ⟨c, a⟩ = some outcome →
      Outcome (t ++ [⟨c, a⟩]) outcome := by
    intro c a outcome hrecord hdelivery
    refine ⟨by rw [records_concat, h.records, hrecord]; rfl, fun r => ?_⟩
    rw [deliveries_concat, h.deliveries, hdelivery]
    exact ⟨fun he => by rw [he]; rfl, fun he => (List.cons.inj he).1⟩
  unfold transmit
  split
  · rename_i raw hraw
    split
    · exact Prog.keeps_perform.mpr ⟨⟨h.deliveries, p, hallowed, ⟨hraw, rfl, rfl⟩, hbackend,
        hadmitted⟩, fun a _ => hdelivered _ a a rfl rfl⟩
    · exact ⟨h.records, fun r => ⟨fun he => absurd he error_ne_ok, fun he => absurd he (h.ne_ok r)⟩⟩
  · rename_i hraw
    exact Prog.keeps_perform.mpr ⟨⟨h.deliveries, p, hallowed, ⟨hraw, rfl, rfl⟩, hbackend,
      hadmitted⟩, fun a _ => hdelivered _ a a rfl rfl⟩

theorem deliver_keeps {p : MailPolicy} {d : Driver} {key : Bytes} (h : Pending t)
    (hallowed : Allowed L req t p) (hbackend : BackendAllows L req t p) :
    (deliver req p key d).Keeps (Truthful L W) (Guarantee L W req) Settled t := by
  unfold deliver
  split
  · rename_i hnone
    have hadmitted : Admitted t p := fun hcapped => by rw [hnone] at hcapped; cases hcapped
    exact Prog.keeps_bind.mpr ((transmit_keeps h hallowed hbackend hadmitted).mono
      fun _ _ houtcome => conclude_keeps houtcome)
  · refine Prog.keeps_call.mpr ⟨trivial, fun res _ => ?_⟩
    have hquiet : QuietSince t (t ++ [⟨.allow (limiterKey p) (limitsOf p), res⟩]) :=
      .concat _ (by trivial)
    have h' := h.of_quiet hquiet
    cases res with
    | error err =>
      exact Prog.keeps_call.mpr ⟨trivial, fun _ _ => .reject h'.records h'.ne_ok rfl (by simp)⟩
    | ok answer =>
      dsimp only
      split
      · rename_i hok
        obtain ⟨spec, hready, hsenders⟩ := hbackend
        have hadmitted : Admitted
            (t ++ [⟨.allow (limiterKey p) (limitsOf p), .ok answer⟩]) p :=
          fun _ => ⟨answer, List.mem_append_right t List.mem_cons_self, hok⟩
        exact Prog.keeps_bind.mpr ((transmit_keeps h' (hallowed.mono hquiet.subset)
          ⟨spec, hready.mono hquiet.subset, hsenders⟩ hadmitted).mono
          fun _ _ houtcome => conclude_keeps houtcome)
      · exact Prog.keeps_call.mpr ⟨trivial, fun _ _ => .reject h'.records h'.ne_ok rfl (by simp)⟩

theorem dispatch_keeps {p : MailPolicy} (h : Pending t) (hallowed : Allowed L req t p) :
    (dispatch L req p).Keeps (Truthful L W) (Guarantee L W req) Settled t := by
  refine Prog.keeps_bind.mpr ((backendForPolicy_keeps p).mono ?_)
  rintro t₁ res ⟨hquiet, hready⟩
  have h₁ := h.of_quiet hquiet
  cases res with
  | error err => exact notReady_keeps h₁
  | ok backend =>
    dsimp only
    split
    · exact deny_keeps h₁.records h₁.ne_ok
    · rename_i hsenders
      refine Prog.keeps_bind.mpr ((keeps_of_only
        (openDriver_only (fun _ _ => trivial) (fun _ => trivial) backend)).mono ?_)
      intro t₂ res hquiet₂
      have h₂ := h₁.of_quiet hquiet₂
      cases res with
      | error err => exact notReady_keeps h₂
      | ok d =>
        have hbackend : BackendAllows L req t₂ p := by
          refine ⟨backend.spec, (hready backend rfl).mono hquiet₂.subset, ?_⟩
          intro allowed hspec sender hsender
          rw [hspec] at hsenders
          simpa using List.find?_eq_none.mp hsenders sender hsender
        refine Prog.keeps_bind.mpr ((deliver_keeps h₂
          (hallowed.mono (hquiet.trans hquiet₂).subset) hbackend).mono fun t₃ res hsettled => ?_)
        exact Prog.keeps_call.mpr ⟨trivial, fun _ _ => hsettled.of_quiet (.concat _ (by trivial))⟩

theorem decideOn_none_keeps (h : Pending t) :
    (decideOn L req none).Keeps (Truthful L W) (Guarantee L W req) Settled t :=
  deny_keeps h.records h.ne_ok

theorem decideOn_keeps {p : MailPolicy} (h : Pending t)
    (hmatched : ∃ policies labels, ⟨.listInNamespace req.identity.ns, policies⟩ ∈ t ∧
      LabelsRead req t policies labels ∧ policyMatch L policies (req.caller labels) = some p)
    (hvalid : validateMailPolicy L p = none) :
    (decideOn L req (some p)).Keeps (Truthful L W) (Guarantee L W req) Settled t := by
  unfold decideOn
  split
  · exact deny_keeps h.records h.ne_ok
  · rename_i p' heval
    obtain rfl : p = p' := Option.some.inj (evaluate_eq_allowed heval).1
    obtain ⟨policies, labels, hlist, hlabels, hmatch⟩ := hmatched
    have hcandidate := (mem_of_policyMatch hmatch).2
    simp only [isCandidate, Bool.and_eq_true, beq_iff_eq] at hcandidate
    exact dispatch_keeps h
      ⟨⟨policies, labels, hlist, hlabels, hmatch⟩, hcandidate.1.1, hvalid, heval⟩

theorem serviceAccountLabels_keeps (policies : List MailPolicy) :
    (serviceAccountLabels req policies).Keeps (Truthful L W) (Guarantee L W req)
      (fun t' labels => QuietSince t t' ∧ LabelsRead req t' policies labels) t := by
  unfold serviceAccountLabels LabelsRead
  split
  · refine Prog.keeps_call.mpr ⟨trivial, fun res _ => ?_⟩
    cases res with
    | error err =>
      exact ⟨.concat _ (by trivial), _, List.mem_append_right t List.mem_cons_self, rfl⟩
    | ok labels =>
      exact ⟨.concat _ (by trivial), _, List.mem_append_right t List.mem_cons_self, rfl⟩
  · exact ⟨.refl t, rfl⟩

/-- On its own, over truthful answers, a send keeps its guarantee and ends settled. -/
theorem send_keeps : (send L req).Keeps (Truthful L W) (Guarantee L W req) Settled [] := by
  refine Prog.keeps_call.mpr ⟨trivial, fun policies hpolicies => ?_⟩
  refine Prog.keeps_bind.mpr ((serviceAccountLabels_keeps policies).mono ?_)
  rintro t₁ labels ⟨hquiet, hlabels⟩
  have hlist := hquiet.subset (List.mem_append_right [] List.mem_cons_self)
  have h₁ : Pending t₁ := Pending.of_quiet ⟨rfl, rfl⟩ hquiet
  cases hmatch : policyMatch L policies (req.caller labels) with
  | none => exact decideOn_none_keeps h₁
  | some p =>
    have hp : W (.policy p) := hpolicies p (mem_of_policyMatch hmatch).1
    refine Prog.keeps_bind.mpr ((check_keeps hp).mono ?_)
    rintro t₂ v ⟨hquiet₂, rfl⟩
    have h₂ := h₁.of_quiet hquiet₂
    cases hvalid : (Object.policy p).validity L with
    | none =>
      exact decideOn_keeps h₂ ⟨policies, labels, hquiet₂.subset hlist, hlabels.mono hquiet₂.subset,
        hmatch⟩ hvalid
    | some verr =>
      exact Prog.keeps_call.mpr ⟨trivial, fun _ _ => .reject h₂.records h₂.ne_ok rfl (by simp)⟩

end Stages

/-! ## Every send of a gateway -/

section Gateway
variable {L : Libraries} {W : Object → Prop} {req : Request} {t : Trace Call Call.Answer}

/-- A call of a driver was cleared by what was done before it. -/
theorem Guarantee.cleared {e : Event Call Call.Answer} (h : Guarantee L W req t e.1)
    (he : (deliveryOf e).isSome) : deliveries t = [] ∧ ∃ p, Cleared L req t e.1 p := by
  obtain ⟨c, a⟩ := e
  cases c <;> first | exact h | cases he

theorem length_deliveries_le_one (h : Meets (Truthful L W) (Guarantee L W req) t) :
    (deliveries t).length ≤ 1 := by
  induction t using List.reverseRecOn with
  | nil => exact Nat.zero_le 1
  | append_singleton t e ih =>
    obtain ⟨ht, hcall, -⟩ := meets_concat.mp h
    rw [deliveries_concat, List.length_append]
    cases he : deliveryOf e with
    | none => exact ih ht
    | some outcome =>
      rw [(hcall.cleared (by rw [he]; rfl)).1]
      exact le_refl 1

end Gateway

/-- **Only checked messages reach a backend.**  In every state of a gateway, each
send has called a driver at most once; what it had done before that call clears
it; and once it has ended, its one audit record, its result and the driver's
answer agree. -/
theorem send_delivers_only_checked (L : Libraries) (W : Object → Prop) (hW : Versioned W)
    (g : Pool ValidityCache Request Call Call.Answer Result) (hg : Reachable L W g) :
    ∀ th ∈ g.threads,
      (deliveries th.done).length ≤ 1 ∧
      (∀ earlier later e, th.done = earlier ++ e :: later → (deliveryOf e).isSome →
        ∃ p, Cleared L th.input earlier e.1 p) ∧
      ∀ res, th.rest = .pure res → Settled th.done res := by
  intro th hth
  obtain ⟨-, hths⟩ := hg.keeps ValidityCache.sound_empty
    (fun req t m c a m' => answers_truthful hW req t m c a m') fun req => send_keeps
  obtain ⟨hmeets, hrest⟩ := hths th hth
  refine ⟨length_deliveries_le_one hmeets, fun earlier later e he hdelivery => ?_,
    fun res hres => ?_⟩
  · exact ((hmeets earlier later e he).1.cleared hdelivery).2
  · rw [hres] at hrest
    exact hrest

section Relay

/-- A capped policy for one sender domain. -/
def relayPolicy : MailPolicy where
  name := lit "alerts"
  ns := lit "team"
  uid := lit "1"
  generation := 1
  spec :=
    { priority := 0
      subjects := [⟨some (lit "app"), none, none⟩]
      backendRef := ⟨lit "relay", .unset⟩
      senderRestrictions := some [lit "*@example.com"]
      recipientRestrictions := none
      rateLimits := some ⟨10, 0, 0⟩
      messageLimits := none
      legacyAuth := none }

def relayBackend : ClusterMailBackend where
  name := lit "relay"
  uid := lit "2"
  generation := 3
  spec :=
    { type := .smtp
      smtp := some
        { endpoints := [⟨lit "smtp.example.com", 587, .startTLS, false⟩]
          authType := .none
          credentialsRef := none
          connectionTimeoutSeconds := 10
          heloDomain := []
          caSecretRef := none }
      microsoftGraph := none
      allowedSenders := some [lit "*@example.com"] }
  status := ⟨[], [⟨lit "Ready", lit "True"⟩]⟩

/-- The two objects there are. -/
def RelayObjects (o : Object) : Prop :=
  o = .policy relayPolicy ∨ o = .clusterMailBackend relayBackend

/-- A world in which every call succeeds. -/
def relayAnswer (m : ValidityCache) : (c : Call) → c.Answer × ValidityCache
  | .listInNamespace _ => ([relayPolicy], m)
  | .getServiceAccount _ _ => (.ok [], m)
  | .lookup uid => (m.lookup uid, m)
  | .store uid v => ((), m.store uid v)
  | .getMailBackend _ _ => (.error (.new (lit "not found")), m)
  | .getClusterMailBackend _ => (.ok relayBackend, m)
  | .getSecret _ _ => (.error .notFound, m)
  | .newDriver _ => (.ok ⟨true⟩, m)
  | .allow _ _ => (.ok ⟨true, 0⟩, m)
  | .refund _ => (none, m)
  | .send _ => (.ok ⟨lit "250 queued", 0⟩, m)
  | .sendRaw _ _ _ => (.ok ⟨lit "250 queued", 0⟩, m)
  | .close => (none, m)
  | .record _ => ((), m)

def relayRequest : Request where
  identity := ⟨lit "team", lit "app", .oauthBearer, [], [], false⟩
  transport := .rest
  messageID := lit "m1"
  message :=
    { messageID := lit "m1"
      fromAddr := ⟨[], lit "app@example.com"⟩
      toAddrs := [⟨[], lit "bob@example.org"⟩]
      cc := []
      bcc := [⟨[], lit "eve@example.org"⟩]
      subject := lit "hello"
      body := ⟨lit "hi", []⟩
      attachments := []
      headers := [] }
  raw := none
  envelopeFrom := []
  sender := []
  replyTo := []
  sizeBytes := 2

theorem relayObjects_versioned : Versioned RelayObjects := by
  rintro a b (rfl | rfl) (rfl | rfl) - huid -
  · rfl
  · exact absurd huid (by decide)
  · exact absurd huid (by decide)
  · rfl

theorem relayAnswer_answers (m : ValidityCache) (c : Call) :
    answers RelayObjects m c (relayAnswer m c).1 (relayAnswer m c).2 := by
  cases c with
  | listInNamespace ns => exact ⟨fun p hp => .inl (congrArg _ (List.mem_singleton.mp hp)), rfl⟩
  | getMailBackend ns name => exact ⟨fun mb h => absurd h error_ne_ok, rfl⟩
  | getClusterMailBackend name => exact ⟨fun cmb h => .inr (congrArg _ (Except.ok.inj h).symm), rfl⟩
  | lookup uid => exact ⟨rfl, rfl⟩
  | _ => rfl

/-- A message through that world. -/
def relayRun : ValidityCache × Trace Call Call.Answer × Result :=
  (send .plain relayRequest).run relayAnswer ∅ []

theorem send_delivers_only_checked_relay :
    relayRun.2.2.status = .accepted ∧
      ∃ ev, records relayRun.2.1 = [ev] ∧ ev.decision = .accept := by
  have hstatus : relayRun.2.2.status = .accepted := by decide +kernel
  have hsettled := (send_delivers_only_checked .plain RelayObjects relayObjects_versioned _
    (Pool.ReachesBy.run relayAnswer_answers .refl relayRequest) _ List.mem_cons_self).2.2 _ rfl
  obtain ⟨ev, hrecords, hdecision⟩ := hsettled.recorded
  exact ⟨hstatus, ev, hrecords, hdecision.mpr hstatus⟩

end Relay

end Gateway
end Sigillum
