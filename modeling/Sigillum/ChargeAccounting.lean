import Sigillum.GatewaySafety

/-! # The charge of a send

What one send does to the budget of its policy, whatever the store, the limiter and the
driver answer.  A trace of the pipeline is read as an account: the keys it charged, the
keys it gave back, and what the driver was handed.  The stages before the limiter leave
the account empty (`send_ran`); `deliver` charges, calls the driver, and gives back or
not, and its account follows from the driver's answer (`deliver_ran`).
-/
namespace Sigillum
namespace Gateway
open Bytes Interaction

/-! ## Accounts -/

/-- The key of a call of `Allow`. -/
def allowOf : Event Call Call.Answer → Option Bytes
  | ⟨.allow key _, _⟩ => some key
  | _ => none

/-- The key, if `Allow` admitted the request. -/
def admissionOf : Event Call Call.Answer → Option Bytes
  | ⟨.allow key _, .ok answer⟩ => if answer.ok then some key else none
  | _ => none

/-- The key of a call of `Refund`, and whether it succeeded. -/
def refundOf : Event Call Call.Answer → Option (Bytes × Bool)
  | ⟨.refund key, err⟩ => some (key, err.isNone)
  | _ => none

/-- What a trace did to the limiter and the driver. -/
structure Account where
  allows : List Bytes
  admissions : List Bytes
  refunds : List (Bytes × Bool)
  deliveries : List (Except Err SendResult)

def account (t : Trace Call Call.Answer) : Account :=
  ⟨t.filterMap allowOf, t.filterMap admissionOf, t.filterMap refundOf, deliveries t⟩

namespace Account

def empty : Account := ⟨[], [], [], []⟩

def append (a b : Account) : Account :=
  ⟨a.allows ++ b.allows, a.admissions ++ b.admissions, a.refunds ++ b.refunds,
    a.deliveries ++ b.deliveries⟩

@[simp] theorem empty_append (a : Account) : empty.append a = a := rfl

@[simp] theorem append_empty (a : Account) : a.append empty = a := by simp [append, empty]

end Account

@[simp] theorem account_append (t t' : Trace Call Call.Answer) :
    account (t ++ t') = (account t).append (account t') := by
  simp [account, Account.append, deliveries]

/-- Calls of neither the limiter nor the driver's message functions. -/
def Call.Idle : Call → Prop
  | .allow _ _ | .refund _ | .send _ | .sendRaw _ _ _ => False
  | _ => True

theorem account_of_idle {t : Trace Call Call.Answer} (h : ∀ e ∈ t, Call.Idle e.1) :
    account t = .empty := by
  have hnone : ∀ {α : Type} (f : Event Call Call.Answer → Option α),
      (∀ e : Event Call Call.Answer, Call.Idle e.1 → f e = none) → t.filterMap f = [] :=
    fun f hf => List.filterMap_eq_nil_iff.mpr fun e he => hf e (h e he)
  unfold account deliveries Account.empty
  rw [hnone allowOf, hnone admissionOf, hnone refundOf, hnone deliveryOf]
  all_goals
    rintro ⟨c, a⟩ hc
    cases c <;> first | rfl | exact hc.elim

/-! ## The end of a send -/

/-- The errors after which a charge is given back. -/
def GivenBack (err : Err) : Prop :=
  .recipientNotInEnvelope ∈ err.is ∨ .upstreamPermanent ∉ err.is

instance (err : Err) : Decidable (GivenBack err) := inferInstanceAs (Decidable (_ ∨ _))

/-- The results that leave a charge: the message was sent, or refused for good. -/
def LeavesCharge (res : Result) : Prop :=
  res.status = .accepted ∨ (res.status = .upstreamError ∧ res.permanent = true)

/-- The send failed with an error after which a charge is given back. -/
def Account.Failed (a : Account) : Prop :=
  ∃ err, a.deliveries = [.error err] ∧ GivenBack err

section Stages
variable {L : Libraries} {req : Request} {t : Trace Call Call.Answer} {res : Result}

/-- Ending with a record leaves the account as it is. -/
theorem record_ran {ev : AuditEvent} {r : Result}
    (h : Prog.Ran (do perform (.record ev); pure r : Pipeline Result) t res) :
    t = [⟨.record ev, ()⟩] ∧ res = r := by
  obtain ⟨u, t₂, rfl, hrest⟩ := Prog.ran_call.mp h
  obtain ⟨rfl, rfl⟩ := Prog.ran_pure.mp hrest
  exact ⟨rfl, rfl⟩

theorem giveBack_ran {p : MailPolicy} {charged : Bool} {u : Unit}
    (h : Prog.Ran (giveBack p charged) t u) :
    ∃ ok, account t = ⟨[], [], if charged then [(limiterKey p, ok)] else [], []⟩ := by
  unfold giveBack at h
  cases charged with
  | true =>
    obtain ⟨err, t₂, rfl, hrest⟩ := Prog.ran_call.mp h
    rw [(Prog.ran_pure.mp hrest).1]
    exact ⟨err.isNone, rfl⟩
  | false =>
    rw [(Prog.ran_pure.mp h).1]
    exact ⟨true, rfl⟩

/-- The driver is called, or cannot relay what the request holds. -/
theorem transmit_ran {d : Driver} {key : Bytes} {outcome : Except Err SendResult}
    (h : Prog.Ran (transmit req d key) t outcome) :
    account t = ⟨[], [], [], [outcome]⟩ ∨
      (account t = .empty ∧ ∃ err, outcome = .error err ∧ ¬ GivenBack err) := by
  unfold transmit at h
  split at h
  · split at h
    · left
      rw [Prog.ran_perform.mp h]
      rfl
    · obtain ⟨rfl, rfl⟩ := Prog.ran_pure.mp h
      exact .inr ⟨rfl, _, rfl, by simp [GivenBack]⟩
  · left
    rw [Prog.ran_perform.mp h]
    rfl

/-- After a message was sent nothing is given back. -/
theorem conclude_ok_ran {p : MailPolicy} {key : Bytes} {charged : Bool} {r : SendResult}
    (h : Prog.Ran (conclude req p key charged (.ok r)) t res) :
    account t = .empty ∧ res.status = .accepted := by
  obtain ⟨rfl, rfl⟩ := record_ran h
  exact ⟨rfl, rfl⟩

/-- After an error a charge is given back, or the result is one that leaves it. -/
theorem conclude_error_ran {p : MailPolicy} {key : Bytes} {charged : Bool} {err : Err}
    (h : Prog.Ran (conclude req p key charged (.error err)) t res) :
    (∃ ok, account t =
        ⟨[], [], if charged ∧ GivenBack err then [(limiterKey p, ok)] else [], []⟩) ∧
      (LeavesCharge res ↔ ¬ GivenBack err) ∧
      (res.status = .upstreamError → res.retryAfter ≠ 0 → res.permanent = false) := by
  unfold conclude at h
  dsimp only at h
  split at h
  · -- a recipient that is not in the envelope
    rename_i hrecipient
    obtain ⟨t₁, u, t₂, rfl, hback, hdeny⟩ := Prog.ran_bind.mp h
    obtain ⟨rfl, rfl⟩ := record_ran hdeny
    obtain ⟨ok, hok⟩ := giveBack_ran hback
    have hgiven : GivenBack err := .inl hrecipient
    refine ⟨⟨ok, ?_⟩, ?_, nofun⟩
    · rw [account_append, hok]
      simp [Account.append, account, hgiven, allowOf, admissionOf, refundOf, deliveries, deliveryOf]
    · simp [LeavesCharge, hgiven]
  · rename_i hrecipient
    obtain ⟨u, t₂, rfl, hrest⟩ := Prog.ran_call.mp h
    obtain ⟨t₃, u', t₄, rfl, hback, hresult⟩ := Prog.ran_bind.mp hrest
    obtain ⟨rfl, rfl⟩ := Prog.ran_pure.mp hresult
    obtain ⟨ok, hok⟩ := giveBack_ran hback
    have hgiven : GivenBack err ↔ .upstreamPermanent ∉ err.is := by simp [GivenBack, hrecipient]
    refine ⟨⟨ok, ?_⟩, ?_, ?_⟩
    · rw [account_append, account_append, hok]
      simp [Account.append, account, hgiven, allowOf, admissionOf, refundOf, deliveries, deliveryOf]
    · simp [LeavesCharge, hgiven]
    · intro _ hretry
      by_cases hpermanent : .upstreamPermanent ∈ err.is
      · simp [hpermanent] at hretry
      · simp [hpermanent]

/-- **The account of a send that came to the limiter.** -/
structure Balanced (p : MailPolicy) (a : Account) (res : Result) : Prop where
  allows : a.allows = if (limitsOf p).isNone then [] else [limiterKey p]
  admissions : a.admissions = [] ∨ a.admissions = a.allows
  refunds : a.Failed → a.refunds.map Prod.fst = a.admissions
  noRefunds : ¬ a.Failed → a.refunds = []
  admitted : a.admissions ≠ [] → (LeavesCharge res ↔ ¬ a.Failed)
  refused : a.admissions = [] → (limitsOf p).isNone = false → ¬ LeavesCharge res
  retry : res.status = .upstreamError → res.retryAfter ≠ 0 → res.permanent = false

/-- The send itself, after the keys in `keys` were charged. -/
theorem balanced_transmit {p : MailPolicy} {key : Bytes} {d : Driver} {keys : List Bytes}
    (hkeys : keys = if (limitsOf p).isNone then [] else [limiterKey p])
    (h : Prog.Ran (transmit req d key >>= conclude req p key (!keys.isEmpty)) t res) :
    Balanced p ((⟨keys, keys, [], []⟩ : Account).append (account t)) res := by
  obtain ⟨t₁, outcome, t₂, rfl, htransmit, hconclude⟩ := Prog.ran_bind.mp h
  rw [account_append]
  have hcapped : keys = [] → (limitsOf p).isNone = false → False := by
    intro hnil hnone
    rw [hnil, if_neg (by simp [hnone])] at hkeys
    cases hkeys
  cases outcome with
  | ok r =>
    obtain ⟨haccount, hstatus⟩ := conclude_ok_ran hconclude
    obtain hsent | ⟨-, err, herr, -⟩ := transmit_ran htransmit
    · have hfailed : ¬ Account.Failed ⟨keys, keys, [], [.ok r]⟩ := by
        rintro ⟨err, herr, -⟩
        cases herr
      rw [haccount, Account.append_empty, hsent]
      simp only [Account.append, List.append_nil, List.nil_append]
      exact ⟨hkeys, .inr rfl, fun hf => absurd hf hfailed, fun _ => rfl,
        fun _ => ⟨fun _ => hfailed, fun _ => .inl hstatus⟩,
        fun hnil hnone => (hcapped hnil hnone).elim, fun hs => by rw [hstatus] at hs; cases hs⟩
    · cases herr
  | error err =>
    obtain ⟨⟨ok, haccount⟩, hleaves, hretry⟩ := conclude_error_ran hconclude
    -- a driver that is not called has an error of its own, which keeps the charge
    have hsent : ∃ ds, account t₁ = ⟨[], [], [], ds⟩ ∧
        ∀ refunds, Account.Failed ⟨keys, keys, refunds, ds⟩ ↔ GivenBack err := by
      obtain hsent | ⟨hnone, err', herr, hkept⟩ := transmit_ran htransmit
      · refine ⟨_, hsent, fun refunds => ⟨?_, fun hgiven => ⟨err, rfl, hgiven⟩⟩⟩
        rintro ⟨err', herr, hgiven⟩
        cases herr
        exact hgiven
      · cases herr
        refine ⟨[], hnone, fun refunds => ⟨?_, fun hgiven => absurd hgiven hkept⟩⟩
        rintro ⟨err', herr, -⟩
        cases herr
    obtain ⟨ds, hds, hfailed⟩ := hsent
    rw [haccount, hds]
    simp only [Account.append, List.append_nil, List.nil_append]
    refine ⟨hkeys, .inr rfl, fun hf => ?_, fun hf => ?_, fun _ => ?_,
      fun hnil hnone => (hcapped hnil hnone).elim, hretry⟩
    · have hgiven := (hfailed _).mp hf
      cases hnone : (limitsOf p).isNone <;> simp [hkeys, hnone, hgiven]
    · rw [hfailed] at hf
      exact if_neg fun hand => hf hand.2
    · rw [hfailed]
      exact hleaves

/-- **`deliver`**: the account of the limiter and the send. -/
theorem deliver_ran {p : MailPolicy} {key : Bytes} {d : Driver}
    (h : Prog.Ran (deliver req p key d) t res) : Balanced p (account t) res := by
  unfold deliver at h
  split at h
  · rename_i hnone
    exact @balanced_transmit _ _ _ _ _ _ [] (by rw [if_pos hnone]) h
  · rename_i hcapped
    obtain ⟨answer, t₂, rfl, hrest⟩ := Prog.ran_call.mp h
    rw [account_append]
    have hkeys : [limiterKey p] = if (limitsOf p).isNone then [] else [limiterKey p] :=
      (if_neg hcapped).symm
    -- refused by the limiter: nothing is sent, and the result says so
    have hrefused : ∀ {a : Account}, a = ⟨[limiterKey p], [], [], []⟩ →
        res.status ≠ .accepted → res.status ≠ .upstreamError → Balanced p a res := by
      rintro a rfl haccepted hupstream
      refine ⟨hkeys, .inl rfl, fun hgiven => ?_, fun _ => rfl,
        fun hne => absurd rfl hne, fun _ _ hleaves => ?_, fun hs => absurd hs hupstream⟩
      · obtain ⟨_, hnone, -⟩ := hgiven
        cases hnone
      · exact hleaves.elim haccepted fun h => hupstream h.1
    cases answer with
    | error err =>
      obtain ⟨rfl, rfl⟩ := record_ran hrest
      exact hrefused rfl (by simp) (by simp)
    | ok answer =>
      dsimp only at hrest
      split at hrest
      · rename_i hok
        have haccount : account [⟨.allow (limiterKey p) (limitsOf p), .ok answer⟩] =
            ⟨[limiterKey p], [limiterKey p], [], []⟩ := by
          simp [account, allowOf, admissionOf, refundOf, deliveries, deliveryOf, hok]
        rw [haccount]
        exact balanced_transmit hkeys hrest
      · rename_i hno
        obtain ⟨rfl, rfl⟩ := record_ran hrest
        refine hrefused ?_ (by simp) (by simp)
        simp [account, allowOf, admissionOf, refundOf, deliveries, deliveryOf, hno, Account.append]

/-! ## What comes before the limiter -/

/-- The policies that were listed. -/
def policiesOf : Event Call Call.Answer → Option (List MailPolicy)
  | ⟨.listInNamespace _, policies⟩ => some policies
  | _ => none

/-- The labels of the service account, if they could be read. -/
def labelsOf : Event Call Call.Answer → Option (Option (List (Bytes × Bytes)))
  | ⟨.getServiceAccount _ _, res⟩ => some res.toOption
  | _ => none

/-- The policy a trace has matched. -/
def policyOf (L : Libraries) (req : Request) (t : Trace Call Call.Answer) : Option MailPolicy := do
  let policies ← t.findSome? policiesOf
  let labels := if needsSALabels policies then (t.findSome? labelsOf).join else none
  policyMatch L policies (req.caller labels)

/-- **What is done before the limiter is asked**: the policy was found and allows the
message, its backend was resolved, and the senders are within what the backend allows. -/
structure Ready (L : Libraries) (req : Request) (t : Trace Call Call.Answer) (p : MailPolicy) :
    Prop where
  policy : policyOf L req t = some p
  allowed : evaluate L (some p) req.view = .allowed p
  backend : ∃ b before during after, t = before ++ during ++ after ∧
    Prog.Ran (backendForPolicy L p) during (.ok b) ∧
    b.spec.allowedSenders.bind (sendersAllowed L req.view) = none

/-- A send that ends before the limiter is asked. -/
structure Ended (t : Trace Call Call.Answer) (res : Result) : Prop where
  idle : ∀ e ∈ t, Call.Idle e.1
  accepted : res.status ≠ .accepted
  upstreamError : res.status ≠ .upstreamError

theorem ended_record {t₁ : Trace Call Call.Answer} {ev : AuditEvent} {r : Result}
    (hidle : ∀ e ∈ t₁, Call.Idle e.1)
    (h : Prog.Ran (do perform (.record ev); pure r : Pipeline Result) t res)
    (haccepted : r.status ≠ .accepted) (hupstream : r.status ≠ .upstreamError) :
    Ended (t₁ ++ t) res := by
  obtain ⟨rfl, rfl⟩ := record_ran h
  refine ⟨fun e he => ?_, haccepted, hupstream⟩
  rcases List.mem_append.mp he with he | he
  · exact hidle e he
  · rw [List.mem_singleton.mp he]
    trivial

theorem idle_append {t₁ t₂ : Trace Call Call.Answer} (h₁ : ∀ e ∈ t₁, Call.Idle e.1)
    (h₂ : ∀ e ∈ t₂, Call.Idle e.1) : ∀ e ∈ t₁ ++ t₂, Call.Idle e.1 :=
  List.forall_mem_append.mpr ⟨h₁, h₂⟩

/-- **A send ends before the limiter is asked, or is ready** and goes on to `deliver`. -/
def Comes (L : Libraries) (req : Request) (t : Trace Call Call.Answer) (res : Result) : Prop :=
  Ended t res ∨ ∃ p b d before during x, t = before ++ during ++ [⟨.close, x⟩] ∧
    (∀ e ∈ before, Call.Idle e.1) ∧ Ready L req before p ∧
    (∀ new, policyOf L req (before ++ new) = some p) ∧
    Prog.Ran (deliver req p b d) during res

theorem dispatch_ran {p : MailPolicy} {t₀ : Trace Call Call.Answer}
    (hidle : ∀ e ∈ t₀, Call.Idle e.1) (hpolicy : ∀ new, policyOf L req (t₀ ++ new) = some p)
    (hallowed : evaluate L (some p) req.view = .allowed p)
    (h : Prog.Ran (dispatch L req p) t res) : Comes L req (t₀ ++ t) res := by
  obtain ⟨t₁, backend, t₂, rfl, hbackend, hrest⟩ := Prog.ran_bind.mp h
  have hidle₁ := idle_append hidle (hbackend.only (backendForPolicy_only (fun _ => trivial)
    (fun _ _ => trivial) (fun _ _ => trivial) (fun _ => trivial) p))
  rw [← List.append_assoc]
  cases backend with
  | error err => exact .inl (ended_record hidle₁ hrest nofun nofun)
  | ok backend =>
    dsimp only at hrest
    split at hrest
    · exact .inl (ended_record hidle₁ hrest nofun nofun)
    · rename_i hsenders
      obtain ⟨t₃, d, t₄, rfl, hopen, hrest⟩ := Prog.ran_bind.mp hrest
      have hidle₂ := idle_append hidle₁
        (hopen.only (openDriver_only (fun _ _ => trivial) (fun _ => trivial) backend))
      rw [← List.append_assoc]
      cases d with
      | error err => exact .inl (ended_record hidle₂ hrest nofun nofun)
      | ok d =>
        obtain ⟨t₅, res', t₆, rfl, hdeliver, hclose⟩ := Prog.ran_bind.mp hrest
        obtain ⟨x, t₈, rfl, hresult⟩ := Prog.ran_call.mp hclose
        obtain ⟨rfl, rfl⟩ := Prog.ran_pure.mp hresult
        refine .inr ⟨p, backend.key, d, t₀ ++ t₁ ++ t₃, t₅, x, ?_, hidle₂, ⟨?_, hallowed, ?_⟩,
          fun new => ?_, hdeliver⟩
        · rw [List.append_nil, ← List.append_assoc]
        · rw [List.append_assoc]
          exact hpolicy _
        · exact ⟨backend, t₀, t₁, t₃, rfl, hbackend, hsenders⟩
        · rw [List.append_assoc, List.append_assoc]
          exact hpolicy _

theorem decideOn_ran {matched : Option MailPolicy} {t₀ : Trace Call Call.Answer}
    (hidle : ∀ e ∈ t₀, Call.Idle e.1) (hpolicy : ∀ new, policyOf L req (t₀ ++ new) = matched)
    (h : Prog.Ran (decideOn L req matched) t res) : Comes L req (t₀ ++ t) res := by
  unfold decideOn at h
  split at h
  · exact .inl (ended_record hidle h nofun nofun)
  · rename_i p heval
    obtain ⟨rfl, -⟩ := evaluate_eq_allowed heval
    exact dispatch_ran hidle hpolicy heval h

/-- What is read of the policy decides which it is, whatever is read later. -/
theorem policyOf_append {policies : List MailPolicy} {labels : Option (List (Bytes × Bytes))}
    {t₁ : Trace Call Call.Answer} (h : Prog.Ran (serviceAccountLabels req policies) t₁ labels)
    (new : Trace Call Call.Answer) :
    policyOf L req (⟨.listInNamespace req.identity.ns, policies⟩ :: (t₁ ++ new)) =
      policyMatch L policies (req.caller labels) := by
  unfold serviceAccountLabels at h
  unfold policyOf
  split at h
  · rename_i hneeds
    obtain ⟨answer, t₃, rfl, hrest⟩ := Prog.ran_call.mp h
    cases answer with
    | error err =>
      obtain ⟨rfl, rfl⟩ := Prog.ran_pure.mp hrest
      simp [List.findSome?_cons, policiesOf, labelsOf, Except.toOption]
    | ok labels =>
      obtain ⟨rfl, rfl⟩ := Prog.ran_pure.mp hrest
      simp [List.findSome?_cons, policiesOf, labelsOf, hneeds, Except.toOption]
  · rename_i hneeds
    obtain ⟨rfl, rfl⟩ := Prog.ran_pure.mp h
    simp [List.findSome?_cons, policiesOf, hneeds]

theorem send_ran (h : Prog.Ran (send L req) t res) : Comes L req t res := by
  obtain ⟨policies, t₂, rfl, hrest⟩ := Prog.ran_call.mp h
  obtain ⟨t₃, labels, t₄, rfl, hlabels, hrest⟩ := Prog.ran_bind.mp hrest
  rw [← List.append_assoc]
  have hidle : ∀ e ∈ [⟨.listInNamespace req.identity.ns, policies⟩] ++ t₃, Call.Idle e.1 :=
    idle_append (by simp [Call.Idle])
      (hlabels.only (serviceAccountLabels_only (fun _ _ => trivial) policies))
  have hpolicy := policyOf_append (L := L) hlabels
  cases hmatch : policyMatch L policies (req.caller labels) with
  | none =>
    rw [hmatch] at hrest hpolicy
    exact decideOn_ran hidle (fun new => by simpa using hpolicy new) hrest
  | some p =>
    rw [hmatch] at hrest hpolicy
    obtain ⟨t₅, v, t₆, rfl, hcheck, hrest⟩ := Prog.ran_bind.mp hrest
    have hidle' := idle_append hidle
      (hcheck.only (check_only (fun _ => trivial) (fun _ _ => trivial) _))
    rw [← List.append_assoc]
    cases v with
    | none => exact decideOn_ran hidle' (fun new => by simpa using hpolicy (t₅ ++ new)) hrest
    | some verr => exact .inl (ended_record hidle' hrest nofun nofun)

/-- `deliver` asks the limiter first, if it does. -/
theorem deliver_allow {p : MailPolicy} {key : Bytes} {d : Driver}
    (h : Prog.Ran (deliver req p key d) t res) :
    (∀ e ∈ t, allowOf e = none) ∨
      ∃ answer rest, t = ⟨.allow (limiterKey p) (limitsOf p), answer⟩ :: rest ∧
        ∀ e ∈ rest, allowOf e = none := by
  have hallows := (deliver_ran h).allows
  unfold deliver at h
  split at h
  · rename_i hnone
    rw [if_pos hnone] at hallows
    exact .inl (List.filterMap_eq_nil_iff.mp hallows)
  · rename_i hcapped
    obtain ⟨answer, t₂, rfl, -⟩ := Prog.ran_call.mp h
    rw [if_neg hcapped, account_append] at hallows
    exact .inr ⟨answer, t₂, rfl, List.filterMap_eq_nil_iff.mp (List.cons.inj hallows).2⟩

end Stages

namespace Balanced
variable {p : MailPolicy} {a : Account} {res : Result} (h : Balanced p a res)
include h

theorem admissions_eq :
    a.admissions = [] ∨ ((limitsOf p).isNone = false ∧ a.admissions = [limiterKey p]) := by
  rcases h.admissions with hnone | hall
  · exact .inl hnone
  · rw [hall, h.allows]
    cases hcapped : (limitsOf p).isNone with
    | true => exact .inl rfl
    | false => exact .inr ⟨rfl, rfl⟩

/-- A charge is given back under its own key, and only after a failure. -/
theorem refunds_eq : a.refunds = [] ∨ ∃ ok, a.refunds = [(limiterKey p, ok)] ∧
    a.admissions = [limiterKey p] ∧ a.Failed := by
  by_cases hfailed : a.Failed
  · have hkeys := h.refunds hfailed
    rcases h.admissions_eq with hnone | ⟨-, hone⟩
    · rw [hnone, List.map_eq_nil_iff] at hkeys
      exact .inl hkeys
    · rw [hone, List.map_eq_singleton_iff] at hkeys
      obtain ⟨⟨key, ok⟩, hrefunds, rfl⟩ := hkeys
      exact .inr ⟨ok, hrefunds, hone, hfailed⟩
  · exact .inl (h.noRefunds hfailed)

theorem refunds_ne_nil_iff : a.refunds ≠ [] ↔ a.admissions ≠ [] ∧ a.Failed := by
  constructor
  · intro hne
    obtain hnone | ⟨ok, -, hone, hfailed⟩ := h.refunds_eq
    · exact absurd hnone hne
    · exact ⟨by simp [hone], hfailed⟩
  · rintro ⟨hne, hfailed⟩ hnone
    have hkeys := h.refunds hfailed
    rw [hnone] at hkeys
    exact hne hkeys.symm

/-- What is left of the charge, if it could be given back. -/
theorem net_eq (hok : ∀ r ∈ a.refunds, r.2 = true) :
    ((a.admissions.length : Int) - (a.refunds.filter Prod.snd).length = 1 ∧
        (limitsOf p).isNone = false ∧ LeavesCharge res) ∨
      ((a.admissions.length : Int) - (a.refunds.filter Prod.snd).length = 0 ∧
        ¬ ((limitsOf p).isNone = false ∧ LeavesCharge res)) := by
  rw [List.filter_eq_self.mpr hok]
  rcases h.admissions_eq with hnone | ⟨hcapped, hone⟩
  · right
    obtain hrefunds | ⟨ok, -, hone, -⟩ := h.refunds_eq
    · rw [hnone, hrefunds]
      exact ⟨rfl, fun hand => h.refused hnone hand.1 hand.2⟩
    · rw [hnone] at hone
      cases hone
  · have hleaves := h.admitted (by simp [hone])
    by_cases hfailed : a.Failed
    · right
      have hlen := congrArg List.length (h.refunds hfailed)
      rw [List.length_map] at hlen
      rw [hlen]
      exact ⟨Int.sub_self _, fun hand => hleaves.mp hand.2 hfailed⟩
    · left
      rw [hone, h.noRefunds hfailed]
      exact ⟨rfl, hcapped, hleaves.mpr hfailed⟩

end Balanced

/-- The one place of a list at which something holds. -/
theorem eq_of_append_cons {α : Type} {P : α → Prop} {xs ys xs' ys' : List α} {x x' : α}
    (hxs : ∀ a ∈ xs, ¬ P a) (hys : ∀ a ∈ ys, ¬ P a) (hx : P x')
    (h : xs ++ x :: ys = xs' ++ x' :: ys') : xs' = xs ∧ x' = x := by
  rcases List.append_eq_append_iff.mp h with ⟨as, has, hcons⟩ | ⟨as, has, hcons⟩
  · cases as with
    | nil => exact ⟨by simpa using has, (List.cons.inj hcons).1.symm⟩
    | cons a as =>
      obtain ⟨-, hcons⟩ := List.cons.inj hcons
      exact absurd hx (hys x' (by simp [hcons]))
  · cases as with
    | nil => exact ⟨by simpa using has.symm, (List.cons.inj hcons).1⟩
    | cons a as =>
      obtain ⟨rfl, -⟩ := List.cons.inj hcons
      exact absurd hx (hxs x' (by simp [has]))

/-- The limiter is asked for the policy, and as the first thing when a message is to be
delivered. -/
theorem asked_once {req : Request} {res : Result} {p : MailPolicy} {d : Driver}
    {key key' : Bytes} {limits : Limits} {before during earlier later : Trace Call Call.Answer}
    {answer : (Call.allow key' limits).Answer} {x : Call.close.Answer}
    (hidle : ∀ e ∈ before, Call.Idle e.1) (hdeliver : Prog.Ran (deliver req p key d) during res)
    (h : before ++ during ++ [⟨.close, x⟩] = earlier ++ ⟨.allow key' limits, answer⟩ :: later) :
    earlier = before ∧ key' = limiterKey p ∧ limits = limitsOf p := by
  have hbefore : ∀ e ∈ before, ¬ (allowOf e).isSome = true := by
    intro e he
    have hnone := congrArg Account.allows (account_of_idle hidle)
    simp [List.filterMap_eq_nil_iff.mp hnone e he]
  rcases deliver_allow hdeliver with hnone | ⟨answer', rest, rfl, hrest⟩
  · have hmem : (⟨.allow key' limits, answer⟩ : Event Call Call.Answer) ∈
        before ++ during ++ [⟨.close, x⟩] := by simp [h]
    rcases List.mem_append.mp hmem with hmem | hmem
    · rcases List.mem_append.mp hmem with hmem | hmem
      · exact absurd rfl (hbefore _ hmem)
      · cases hnone _ hmem
    · cases List.mem_singleton.mp hmem
  · have hlater : ∀ e ∈ rest ++ [⟨.close, x⟩], ¬ (allowOf e).isSome = true := by
      intro e he
      rcases List.mem_append.mp he with he | he
      · simp [hrest e he]
      · rw [List.mem_singleton.mp he]
        simp [allowOf]
    rw [List.append_assoc, List.cons_append] at h
    obtain ⟨rfl, he⟩ := eq_of_append_cons (P := fun e => (allowOf e).isSome = true) hbefore hlater
      rfl h
    cases he
    exact ⟨rfl, rfl, rfl⟩

/-- What is left of the charges of a trace. -/
def netCharge (t : Trace Call Call.Answer) : Int :=
  (account t).admissions.length - ((account t).refunds.filter Prod.snd).length

/-- **The charge of one send**, whatever it is answered.  It asks the limiter at most once,
and only when it is `Ready`; it gives back at most once, under the key it charged, and
exactly when it was admitted and the send failed with an error of `GivenBack`.  If the
refund succeeds, one charge is left if the policy caps a window and the result says that
the message was accepted or refused for good, and none otherwise; and only an upstream
error that is not permanent asks to be retried after some time. -/
theorem charge_accounting {L : Libraries} {req : Request} {t : Trace Call Call.Answer}
    {res : Result} (h : Prog.Ran (send L req) t res) :
    (account t).allows.length ≤ 1 ∧
      (∀ earlier key limits answer later, t = earlier ++ ⟨.allow key limits, answer⟩ :: later →
        ∃ p, Ready L req earlier p ∧ key = limiterKey p ∧ limits = limitsOf p) ∧
      (account t).refunds.length ≤ 1 ∧
      (∀ r ∈ (account t).refunds, (account t).admissions = [r.1]) ∧
      ((account t).refunds ≠ [] ↔ (account t).admissions ≠ [] ∧ (account t).Failed) ∧
      ((∀ r ∈ (account t).refunds, r.2 = true) →
        (netCharge t = 1 ↔ ∃ p, policyOf L req t = some p ∧ (limitsOf p).isNone = false ∧
          LeavesCharge res) ∧
        (netCharge t = 0 ↔ ¬ ∃ p, policyOf L req t = some p ∧ (limitsOf p).isNone = false ∧
          LeavesCharge res)) ∧
      (res.status = .upstreamError → res.retryAfter ≠ 0 → res.permanent = false) := by
  rcases send_ran h with hended |
    ⟨p, key, d, before, during, x, rfl, hidle, hready, hpolicy, hdeliver⟩
  · have haccount := account_of_idle hended.idle
    have hleaves : ¬ LeavesCharge res := fun hl =>
      hl.elim hended.accepted fun h => hended.upstreamError h.1
    unfold netCharge
    rw [haccount]
    refine ⟨Nat.zero_le _, ?_, Nat.zero_le _, nofun, by simp [Account.empty], fun _ => ?_,
      fun hs => absurd hs hended.upstreamError⟩
    · rintro earlier key limits answer later rfl
      exact (hended.idle ⟨.allow key limits, answer⟩ (by simp)).elim
    · simp [Account.empty, hleaves]
  · have haccount : account (before ++ during ++ [⟨.close, x⟩]) = account during := by
      rw [account_append, account_append, account_of_idle hidle, Account.empty_append]
      exact Account.append_empty _
    have hbalanced := deliver_ran hdeliver
    have hpolicy' : policyOf L req (before ++ during ++ [⟨.close, x⟩]) = some p := by
      rw [List.append_assoc]
      exact hpolicy _
    unfold netCharge
    rw [haccount, hpolicy']
    refine ⟨?_, ?_, ?_, ?_, hbalanced.refunds_ne_nil_iff, fun hok => ?_, hbalanced.retry⟩
    · rw [hbalanced.allows]
      split <;> simp
    · intro earlier key limits answer later heq
      obtain ⟨rfl, rfl, rfl⟩ := asked_once hidle hdeliver heq
      exact ⟨p, hready, rfl, rfl⟩
    · obtain hnone | ⟨ok, hone, -, -⟩ := hbalanced.refunds_eq
      · simp [hnone]
      · simp [hone]
    · intro r hr
      obtain hnone | ⟨ok, hone, hadmitted, -⟩ := hbalanced.refunds_eq
      · rw [hnone] at hr
        cases hr
      · rw [hone] at hr
        rw [List.mem_singleton.mp hr]
        exact hadmitted
    · rcases hbalanced.net_eq hok with ⟨hnet, hcharge⟩ | ⟨hnet, hcharge⟩
      · simp [hnet, hcharge]
      · simpa [hnet] using hcharge

/-- The world of `relayAnswer`, with a relay that is down. -/
def downAnswer (m : ValidityCache) : (c : Call) → c.Answer × ValidityCache
  | .send _ => (.error ⟨lit "connection refused", [.upstreamTransient], 0⟩, m)
  | c => relayAnswer m c

/-- A message that could not be sent is charged, and given back. -/
theorem charge_accounting_down :
    (account ((send .plain relayRequest).run downAnswer ∅ []).2.1).admissions =
        [lit "team/alerts"] ∧
      netCharge ((send .plain relayRequest).run downAnswer ∅ []).2.1 = 0 ∧
      ((send .plain relayRequest).run downAnswer ∅ []).2.2.status = .upstreamError ∧
      (account ((send .plain relayRequest).run downAnswer ∅ []).2.1).Failed := by
  have hadmissions : (account ((send .plain relayRequest).run downAnswer ∅ []).2.1).admissions =
      [lit "team/alerts"] := by decide +kernel
  have hrefunds : (account ((send .plain relayRequest).run downAnswer ∅ []).2.1).refunds =
      [(lit "team/alerts", true)] := by decide +kernel
  refine ⟨hadmissions, by decide +kernel, by decide +kernel, ?_⟩
  exact ((charge_accounting (Prog.ran_run downAnswer (send .plain relayRequest) ∅)).2.2.2.2.1.mp
    (by rw [hrefunds]; exact List.cons_ne_nil _ _)).2

end Gateway
end Sigillum
