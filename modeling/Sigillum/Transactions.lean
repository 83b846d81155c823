import Sigillum.Handling
import Sigillum.Revocation

/-! # Mail transactions

A client of the SMTP proxy gives the sender and the recipients of a message in commands of
their own, and learns of each whether it was accepted.  `Client` is what it can make of the
replies: the envelope it has given so far, and the envelopes of the messages it was told are
accepted.

`transactions_agree` sets this beside what the session does with its `Sender`, in any
conversation and whatever the session is answered.  Commands may come in any order; of
`go-smtp` it is only used that it resets the session behind every DATA.
-/
namespace Sigillum
open Bytes Interaction

namespace SMTPProxy

/-- Sender and recipients of a message. -/
structure Envelope where
  sender : Bytes := []
  recipients : List Bytes := []
  deriving DecidableEq, Repr

/-! ## What a session reports -/

/-- What the `Sender` hears of a message: it is rejected, or to be sent, with its answer. -/
inductive Report where
  | rejected (ev : SessionEvent)
  | sent (req : Request) (res : Result)

def reportOf : Event Call Call.Answer → Option Report
  | ⟨.reject ev _, _⟩ => some (.rejected ev)
  | ⟨.send req, res⟩ => some (.sent req res)
  | _ => none

def reports (t : SessionTrace) : List Report := t.filterMap reportOf

theorem reports_append (t t' : SessionTrace) : reports (t ++ t') = reports t ++ reports t' :=
  List.filterMap_append

theorem reports_of_unseen {t : SessionTrace} (h : ∀ e ∈ t, e.1.Unseen) :
    reports t = [] := by
  refine List.filterMap_eq_nil_iff.mpr ?_
  rintro ⟨c, a⟩ he
  have hc := h _ he
  cases c <;> first | rfl | exact hc.elim

/-- The envelope of a message that was sent. -/
def Report.accepted : Report → Option Envelope
  | .rejected _ => none
  | .sent req res =>
    if res.status = .accepted then some ⟨req.envelopeFrom, req.view.recipients⟩ else none

def sentIn (t : SessionTrace) : List Envelope := (reports t).filterMap Report.accepted

/-! ## Conversations -/

/-- A callback, what it did, and the error it returned. -/
structure Turn where
  callback : Callback
  trace : SessionTrace
  err : Option SessionError

/-- The session behind a callback; `smtp.Conn` resets it when a message has been taken. -/
def settled (cb : Callback) (s : Session) : Session := if cb = .data then s.reset else s

/-- The callbacks of a connection so far, and where its session stands. -/
inductive Conversation (L : Libraries) (b : Backend) (remoteIP : Bytes) (isTLS : Bool) :
    List Turn → Session → Prop
  | new : Conversation L b remoteIP isTLS [] { remoteIP := remoteIP, isTLS := isTLS }
  | next {log : List Turn} {s s' : Session} {x : Turn}
    (h : Conversation L b remoteIP isTLS log s)
    (hran : (s.on L b x.callback).Ran x.trace (s', x.err)) :
    Conversation L b remoteIP isTLS (log ++ [x]) (settled x.callback s')

/-- The envelope that is given, once a command is answered. -/
def Envelope.after (env : Envelope) : Callback → Option SessionError → Envelope
  | .mail fromAddr, none => { env with sender := fromAddr }
  | .rcpt toAddr, none => { env with recipients := env.recipients ++ [toAddr] }
  | .data, _ | .reset, _ => {}
  | _, _ => env

/-- What the client can make of the replies. -/
structure Client where
  envelope : Envelope := {}
  told : List Envelope := []

def Client.hear (client : Client) (x : Turn) : Client where
  envelope := client.envelope.after x.callback x.err
  told := client.told ++
    if x.callback = .data ∧ x.err = none then [client.envelope] else []

def heard (log : List Turn) : Client := log.foldl Client.hear {}

/-- **What DATA comes to**, for a message with this ID and envelope: it is rejected, and recorded
as that; or the `Sender` is asked to send it, and the client told whether that was done; or the
session has no identity, or none any more. -/
def Concludes (msgID : Bytes) (env : Envelope) (rs : List Report) (err : Option SessionError) :
    Prop :=
  (∃ ev, rs = [.rejected ev] ∧ ev.messageID = msgID ∧ ev.fromAddr = env.sender ∧
      ev.toAddrs = env.recipients ∧ err ≠ none) ∨
    (∃ req res, rs = [.sent req res] ∧ req.messageID = msgID ∧ req.envelopeFrom = env.sender ∧
      req.view.recipients = env.recipients ∧ (err = none ↔ res.status = .accepted)) ∨
    (rs = [] ∧ (err = some errAuthRequired ∨ err = some (withMessageID errCredentialRevoked msgID)))

/-- A command other than DATA is recorded only if it is refused, and then once. -/
def Recorded (rs : List Report) (err : Option SessionError) : Prop :=
  rs = [] ∨ err ≠ none ∧ ∃ ev, rs = [.rejected ev]

/-- What a turn does with the envelope the client has given. -/
structure Agrees (env : Envelope) (x : Turn) : Prop where
  data : x.callback = .data → ∃ msgID, x.trace.head? = some ⟨.newID, msgID⟩ ∧
    Concludes msgID env (reports x.trace) x.err
  other : x.callback ≠ .data → Recorded (reports x.trace) x.err

/-! ## The envelope of a session -/

def Session.envelope (s : Session) : Envelope := ⟨s.fromAddr, s.rcpts⟩

namespace Session
variable {L : Libraries} {b : Backend} {s : Session} {t : SessionTrace}
  {out : Session × Option SessionError}

theorem Authenticated.envelope_eq {s' : Session} (h : Authenticated s s') :
    s'.envelope = s.envelope := by
  cases h <;> rfl

theorem auth_returns (x : Exchange) :
    (s.auth b x).Returns fun out => out.1.envelope = s.envelope :=
  (auth_authenticates x).2.mono fun _ h => h.envelope_eq

theorem checkCredential_returns (msgID fromAddr : Bytes) (toAddrs : List Bytes) :
    (s.checkCredential msgID fromAddr toAddrs).Returns fun out =>
      out.1.envelope = s.envelope := by
  unfold checkCredential
  split
  · rfl
  · split
    · rfl
    · refine .bind fun res => ?_
      rcases res with ⟨_ | err⟩ | previous
      · exact .bind fun _ => rfl
      · exact .bind fun _ => rfl
      · rfl

theorem identifyByPodIP_returns :
    (s.identifyByPodIP b).Returns fun out => out.1.envelope = s.envelope := by
  unfold identifyByPodIP
  split
  · exact .bind fun _ => rfl
  · refine .bind fun res => ?_
    cases res with
    | error err => exact .bind fun _ => rfl
    | ok pod => rfl

theorem after_mail_of_isSome {env : Envelope} {fromAddr : Bytes} {err : Option SessionError}
    (h : err.isSome = true) : env.after (.mail fromAddr) err = env := by
  cases err with
  | none => cases h
  | some err => rfl

theorem acceptSender_returns (fromAddr : Bytes) :
    (s.acceptSender L fromAddr).Returns fun out =>
      out.1.envelope = s.envelope.after (.mail fromAddr) out.2 := by
  unfold acceptSender
  split
  · exact .bind fun _ => rfl
  · split
    · exact .bind fun _ => rfl
    · rfl

theorem mail_returns (fromAddr : Bytes) :
    (s.mail L b fromAddr).Returns fun out =>
      out.1.envelope = s.envelope.after (.mail fromAddr) out.2 := by
  refine .bind fun msgID => (checkCredential_returns msgID fromAddr []).seq ?_
  rintro ⟨s₁, err⟩ h
  dsimp only at h ⊢
  rw [← h]
  split
  · rename_i herr
    exact (after_mail_of_isSome herr).symm
  · split
    · refine identifyByPodIP_returns.seq ?_
      rintro ⟨s₂, err⟩ h
      dsimp only at h ⊢
      rw [← h]
      split
      · rename_i herr
        exact (after_mail_of_isSome herr).symm
      · exact acceptSender_returns fromAddr
    · exact acceptSender_returns fromAddr

theorem rcpt_returns (toAddr : Bytes) :
    (s.rcpt L toAddr).Returns fun out =>
      out.1.envelope = s.envelope.after (.rcpt toAddr) out.2 := by
  unfold rcpt
  split
  · exact .bind fun _ => rfl
  · rfl

theorem on_envelope {cb : Callback} (h : (s.on L b cb).Ran t out) :
    (settled cb out.1).envelope = s.envelope.after cb out.2 := by
  cases cb with
  | auth x => exact h.returns (auth_returns x)
  | mail fromAddr => exact h.returns (mail_returns fromAddr)
  | rcpt toAddr => exact h.returns (rcpt_returns toAddr)
  | data => rfl
  | reset =>
    obtain ⟨-, rfl⟩ := Prog.ran_pure.mp h
    rfl

/-! ## AUTH, MAIL and RCPT -/

theorem recorded_pure {out' : Session × Option SessionError} (h : (pure out' : Action).Ran t out) :
    Recorded (reports t) out.2 := by
  rw [(Prog.ran_pure.mp h).1]
  exact .inl rfl

theorem recorded_rejected {ev : Bytes → SessionEvent} {reason : Bytes} {s₁ : Session}
    {err : SessionError}
    (h : Prog.Ran (do
      (do let msgID ← perform .newID; perform (.reject (ev msgID) reason))
      return (s₁, some err) : Action) t out) : Recorded (reports t) out.2 := by
  obtain ⟨t₁, u, t₂, rfl, hreject, hreturn⟩ := Prog.ran_bind.mp h
  obtain ⟨msgID, t₄, rfl, hcall⟩ := Prog.ran_call.mp hreject
  obtain ⟨rfl, rfl⟩ := Prog.ran_pure.mp hreturn
  rw [Prog.ran_perform.mp hcall]
  exact .inr ⟨Option.some_ne_none err, _, rfl⟩

theorem recorded_append {t' : SessionTrace} {err : Option SessionError} (ht : reports t = [])
    (h : Recorded (reports t') err) : Recorded (reports (t ++ t')) err := by
  rwa [reports_append, ht, List.nil_append]

theorem credentialLogin_ran {username password : Bytes}
    (h : (s.credentialLogin b username password).Ran t out) : Recorded (reports t) out.2 := by
  obtain ⟨t₁, res, t₂, rfl, hverify, hrest⟩ := Prog.ran_bind.mp h
  refine recorded_append (reports_of_unseen (hverify.only (verifyLogin_unseen ..))) ?_
  rcases res with _ | ⟨_ | err⟩ | res
  · exact recorded_rejected hrest
  · exact recorded_rejected hrest
  · exact recorded_rejected hrest
  · exact recorded_pure hrest

theorem plainLogin_ran {identity username password : Bytes}
    (h : (s.plainLogin b identity username password).Ran t out) :
    Recorded (reports t) out.2 := by
  unfold plainLogin at h
  split at h
  · exact recorded_rejected h
  · exact credentialLogin_ran h

theorem tokenLogin_ran {token : Bytes} (h : (s.tokenLogin token).Ran t out) :
    Recorded (reports t) out.2 := by
  obtain ⟨res, t₂, rfl, hrest⟩ := Prog.ran_call.mp h
  refine recorded_append rfl ?_
  rcases res with ⟨_ | _⟩ | subj
  · exact recorded_rejected hrest
  · exact recorded_rejected hrest
  · exact recorded_pure hrest

theorem credentialAuth_ran {login : Option Action}
    (hlogin : ∀ p ∈ login, ∀ t out, p.Ran t out → Recorded (reports t) out.2)
    (h : (s.credentialAuth b login).Ran t out) : Recorded (reports t) out.2 := by
  unfold credentialAuth at h
  split at h
  · exact recorded_pure h
  · split at h
    · exact recorded_pure h
    · split at h
      · exact hlogin _ rfl _ _ h
      · exact recorded_pure h

theorem auth_ran {x : Exchange} (h : (s.auth b x).Ran t out) : Recorded (reports t) out.2 := by
  cases x with
  | unknown => exact recorded_pure h
  | oauthBearer token =>
    dsimp only [auth] at h
    split at h
    · exact recorded_pure h
    · cases token with
      | none => exact recorded_pure h
      | some token => exact tokenLogin_ran h
  | plain login =>
    refine credentialAuth_ran (fun p hp t out h => ?_) h
    obtain ⟨⟨identity, username, password⟩, -, rfl⟩ := Option.mem_map.mp hp
    exact plainLogin_ran h
  | login responses =>
    refine credentialAuth_ran (fun p hp t out h => ?_) h
    obtain ⟨⟨username, password⟩, -, rfl⟩ := Option.mem_map.mp hp
    exact credentialLogin_ran h

/-- What `checkCredential` reports, of whatever message. -/
theorem checkCredential_ran {msgID fromAddr : Bytes} {toAddrs : List Bytes}
    (h : (s.checkCredential msgID fromAddr toAddrs).Ran t out) :
    (∃ err, out.2 = some err ∧ (reports t = [.rejected (s.event msgID fromAddr toAddrs)] ∨
        reports t = [] ∧ err = errCredentialRevoked)) ∨
      (out.2 = none ∧ reports t = [] ∧ (s.identity ≠ none → out.1.identity ≠ none)) := by
  unfold checkCredential at h
  split at h
  · obtain ⟨rfl, rfl⟩ := Prog.ran_pure.mp h
    exact .inl ⟨_, rfl, .inr ⟨rfl, rfl⟩⟩
  · split at h
    · obtain ⟨rfl, rfl⟩ := Prog.ran_pure.mp h
      exact .inr ⟨rfl, rfl, id⟩
    · obtain ⟨res, t₂, rfl, hrest⟩ := Prog.ran_call.mp h
      rcases res with ⟨_ | err⟩ | previous
      · obtain ⟨t₃, u, t₄, rfl, hreject, hreturn⟩ := Prog.ran_bind.mp hrest
        obtain ⟨rfl, rfl⟩ := Prog.ran_pure.mp hreturn
        rw [Prog.ran_perform.mp hreject]
        exact .inl ⟨_, rfl, .inl rfl⟩
      · obtain ⟨u, t₄, rfl, hreturn⟩ := Prog.ran_call.mp hrest
        obtain ⟨rfl, rfl⟩ := Prog.ran_pure.mp hreturn
        exact .inl ⟨_, rfl, .inl rfl⟩
      · obtain ⟨rfl, rfl⟩ := Prog.ran_pure.mp hrest
        exact .inr ⟨rfl, rfl, by simp⟩

theorem identifyByPodIP_ran (h : (s.identifyByPodIP b).Ran t out) :
    Recorded (reports t) out.2 := by
  unfold identifyByPodIP at h
  split at h
  · exact recorded_rejected h
  · obtain ⟨res, t₂, rfl, hrest⟩ := Prog.ran_call.mp h
    refine recorded_append rfl ?_
    cases res with
    | error err => exact recorded_rejected hrest
    | ok pod => exact recorded_pure hrest

theorem acceptSender_ran {fromAddr : Bytes} (h : (s.acceptSender L fromAddr).Ran t out) :
    Recorded (reports t) out.2 := by
  unfold acceptSender at h
  split at h
  · exact recorded_rejected h
  · split at h
    · exact recorded_rejected h
    · exact recorded_pure h

theorem mail_ran {fromAddr : Bytes} (h : (s.mail L b fromAddr).Ran t out) :
    Recorded (reports t) out.2 := by
  obtain ⟨msgID, t₂, rfl, hrest⟩ := Prog.ran_call.mp h
  obtain ⟨t₃, ⟨s₁, err⟩, t₄, rfl, hcheck, hrest⟩ := Prog.ran_bind.mp hrest
  refine recorded_append rfl ?_
  rcases checkCredential_ran hcheck with ⟨err, rfl, hreports⟩ | ⟨rfl, hquiet, -⟩
  · obtain ⟨rfl, rfl⟩ := Prog.ran_pure.mp hrest
    rw [List.append_nil]
    rcases hreports with hreports | ⟨hreports, -⟩
    · exact .inr ⟨Option.some_ne_none err, _, hreports⟩
    · exact .inl hreports
  · refine recorded_append hquiet ?_
    replace hrest : Prog.Ran (if s₁.identity = none then _ else _) t₄ out := hrest
    split at hrest
    · obtain ⟨t₅, ⟨s₂, err⟩, t₆, rfl, hpod, hrest⟩ := Prog.ran_bind.mp hrest
      cases err with
      | some err =>
        obtain ⟨rfl, rfl⟩ := Prog.ran_pure.mp hrest
        rw [List.append_nil]
        exact identifyByPodIP_ran hpod
      | none =>
        -- an identified caller has not been reported, so that the sender may be
        have hquiet := (identifyByPodIP_ran hpod).resolve_right fun h => h.1 rfl
        exact recorded_append hquiet (acceptSender_ran hrest)
    · exact acceptSender_ran hrest

theorem rcpt_ran {toAddr : Bytes} (h : (s.rcpt L toAddr).Ran t out) :
    Recorded (reports t) out.2 := by
  unfold rcpt at h
  split at h
  · exact recorded_rejected h
  · exact recorded_pure h

/-! ## DATA -/

section Data
variable {identity : Identity} {msgID : Bytes}

/-- A message that is rejected with the envelope of the session. -/
theorem concludes_rejected {rs : List Report} {err : Option SessionError}
    (hrs : rs = [.rejected (s.event msgID s.fromAddr s.rcpts)]) (herr : err ≠ none) :
    Concludes msgID s.envelope rs err := by
  refine .inl ⟨_, hrs, ?_, ?_, ?_, herr⟩
  all_goals
    unfold event
    split <;> rfl

theorem concludes_refused {reason : Bytes} {err : SessionError} {s₁ : Session}
    (h : Prog.Ran (do
      perform (.reject (s.event msgID s.fromAddr s.rcpts) reason)
      return (s₁, some err) : Action) t out) : Concludes msgID s.envelope (reports t) out.2 := by
  obtain ⟨u, t₂, rfl, hreturn⟩ := Prog.ran_call.mp h
  obtain ⟨rfl, rfl⟩ := Prog.ran_pure.mp hreturn
  exact concludes_rejected rfl (Option.some_ne_none err)

theorem concludes_closed {reason : Bytes} {err : SessionError} {s₁ : Session}
    (h : Prog.Ran (do
      perform (.reject (s.event msgID s.fromAddr s.rcpts) reason)
      perform .closeAfterReply
      return (s₁, some err) : Action) t out) : Concludes msgID s.envelope (reports t) out.2 := by
  obtain ⟨u, t₂, rfl, hrest⟩ := Prog.ran_call.mp h
  obtain ⟨u', t₄, rfl, hreturn⟩ := Prog.ran_call.mp hrest
  obtain ⟨rfl, rfl⟩ := Prog.ran_pure.mp hreturn
  exact concludes_rejected rfl (Option.some_ne_none err)

theorem readFailed_ran {err : DataError}
    (h : (s.readFailed b msgID (s.event msgID s.fromAddr s.rcpts) err).Ran t out) :
    Concludes msgID s.envelope (reports t) out.2 := by
  cases err with
  | tooLarge err | other err => exact concludes_refused h
  | deadlineExceeded | tooLongLine => exact concludes_closed h

theorem resultError_eq_none {res : Result} : resultError res msgID = none ↔
    res.status = .accepted := by
  unfold resultError
  cases res.status with
  | accepted => simp
  | denied =>
    simp only [reduceCtorEq, iff_false]
    split <;> simp
  | upstreamError =>
    simp only [reduceCtorEq, iff_false]
    split
    · simp
    · split <;> simp
  | rateLimited | backendNotReady | unavailable | policyInvalid => simp

theorem recipients_request {relayed raw : Bytes} {msg : HeaderBlock.Message}
    {hdr : AddressHeaders} :
    (s.request b identity msgID relayed raw msg hdr).view.recipients = s.rcpts := by
  show ((s.rcpts.map fun rc => (⟨[], rc⟩ : Address)) ++ [] ++ []).map Address.address = s.rcpts
  rw [List.append_nil, List.append_nil, List.map_map]
  exact List.map_id s.rcpts

theorem relay_ran {trace raw : Bytes} {msg : HeaderBlock.Message} {hdr : AddressHeaders}
    (hidentity : s.identity = some identity)
    (h : (s.relay b msgID trace raw msg hdr).Ran t out) :
    Concludes msgID s.envelope (reports t) out.2 := by
  obtain ⟨t₁, added, t₂, rfl, hadded, hrest⟩ := Prog.ran_bind.mp h
  obtain ⟨t₃, ⟨s₁, err⟩, t₄, rfl, hcheck, hrest⟩ := Prog.ran_bind.mp hrest
  rw [reports_append, reports_append,
    reports_of_unseen (hadded.only (missingOriginationHeaders_unseen ..))]
  have henvelope : s₁.envelope = s.envelope := hcheck.returns (checkCredential_returns ..)
  rcases checkCredential_ran hcheck with ⟨err, rfl, hreports⟩ | ⟨rfl, hquiet, hidentity₁⟩
  · obtain ⟨rfl, rfl⟩ := Prog.ran_pure.mp hrest
    rw [List.nil_append, show reports [] = [] from rfl, List.append_nil]
    -- a session that is revoked already is refused without a record
    rcases hreports with hreports | ⟨hreports, rfl⟩
    · exact concludes_rejected hreports (Option.some_ne_none _)
    · exact .inr (.inr ⟨hreports, .inr rfl⟩)
  · obtain ⟨identity₁, hidentity₁⟩ :=
      Option.ne_none_iff_exists'.mp (hidentity₁ (hidentity ▸ Option.some_ne_none identity))
    dsimp only at hrest hidentity₁
    rw [hidentity₁] at hrest
    obtain ⟨res, t₆, rfl, hreturn⟩ := Prog.ran_call.mp hrest
    obtain ⟨rfl, rfl⟩ := Prog.ran_pure.mp hreturn
    rw [hquiet, ← henvelope]
    exact .inr (.inl ⟨_, res, rfl, rfl, rfl, recipients_request, resultError_eq_none⟩)

theorem receive_ran (hidentity : s.identity = some identity)
    (h : (s.receive L b identity msgID (s.event msgID s.fromAddr s.rcpts)).Ran t out) :
    Concludes msgID s.envelope (reports t) out.2 := by
  obtain ⟨date, t₂, rfl, hread⟩ := Prog.ran_call.mp h
  obtain ⟨content, t₄, rfl, hrest⟩ := Prog.ran_call.mp hread
  show Concludes msgID s.envelope (reports t₄) out.2
  cases content with
  | error err => exact readFailed_ran hrest
  | ok content =>
    dsimp only at hrest
    split at hrest
    · exact concludes_refused hrest
    · exact relay_ran hidentity hrest

/-- A slot that is given back afterwards changes nothing. -/
theorem concludes_released {p : Action} {c : Call} (hc : c.Unseen)
    (hp : ∀ t out, p.Ran t out → Concludes msgID s.envelope (reports t) out.2)
    (h : Prog.Ran (do let out ← p; let _ ← perform c; return out : Action) t out) :
    Concludes msgID s.envelope (reports t) out.2 := by
  obtain ⟨t₁, out', t₂, rfl, hran, hrest⟩ := Prog.ran_bind.mp h
  obtain ⟨t₃, a, t₄, rfl, hrelease, hreturn⟩ := Prog.ran_bind.mp hrest
  obtain ⟨rfl, rfl⟩ := Prog.ran_pure.mp hreturn
  have hquiet : reports (t₃ ++ []) = [] := by
    rw [Prog.ran_perform.mp hrelease]
    exact reports_of_unseen fun e he => by rwa [List.mem_singleton.mp he]
  rw [reports_append, hquiet, List.append_nil]
  exact hp t₁ out hran

theorem dataInTenant_ran (hidentity : s.identity = some identity)
    (h : (s.dataInTenant L b identity msgID (s.event msgID s.fromAddr s.rcpts)).Ran t out) :
    Concludes msgID s.envelope (reports t) out.2 := by
  unfold dataInTenant at h
  split at h
  · obtain ⟨got, t₂, rfl, hrest⟩ := Prog.ran_call.mp h
    show Concludes msgID s.envelope (reports t₂) out.2
    split at hrest
    · exact concludes_released (c := .releaseSlot) trivial
        (fun t out hreceive => receive_ran hidentity hreceive) hrest
    · exact concludes_refused hrest
  · exact receive_ran hidentity h

theorem data_ran (h : (s.data L b).Ran t out) : ∃ msgID, t.head? = some ⟨.newID, msgID⟩ ∧
    Concludes msgID s.envelope (reports t) out.2 := by
  obtain ⟨msgID, t₂, rfl, hdata⟩ := Prog.ran_call.mp h
  refine ⟨msgID, rfl, ?_⟩
  show Concludes msgID s.envelope (reports t₂) out.2
  split at hdata
  · obtain ⟨rfl, rfl⟩ := Prog.ran_pure.mp hdata
    exact .inr (.inr ⟨rfl, .inl rfl⟩)
  · rename_i identity hidentity
    obtain ⟨got, t₄, rfl, hrest⟩ := Prog.ran_call.mp hdata
    show Concludes msgID s.envelope (reports t₄) out.2
    split at hrest
    · exact concludes_released (c := .releaseTenant) trivial
        (fun t out hdata => dataInTenant_ran hidentity hdata) hrest
    · exact concludes_refused hrest

end Data

/-- What the other callbacks report. -/
theorem on_recorded {cb : Callback} (hcb : cb ≠ .data) (h : (s.on L b cb).Ran t out) :
    Recorded (reports t) out.2 := by
  cases cb with
  | auth x => exact auth_ran h
  | mail fromAddr => exact mail_ran h
  | rcpt toAddr => exact rcpt_ran h
  | data => exact absurd rfl hcb
  | reset => exact recorded_pure h

end Session

theorem heard_concat (log : List Turn) (x : Turn) :
    heard (log ++ [x]) = (heard log).hear x := by
  rw [heard, List.foldl_append]
  rfl

theorem Concludes.sent {msgID : Bytes} {env : Envelope} {rs : List Report}
    {err : Option SessionError} (h : Concludes msgID env rs err) :
    rs.filterMap Report.accepted = if err = none then [env] else [] := by
  rcases h with ⟨ev, rfl, -, -, -, herr⟩ | ⟨req, res, rfl, -, hfrom, hto, herr⟩ | ⟨rfl, herr⟩
  · rw [if_neg herr]
    rfl
  · by_cases haccepted : res.status = .accepted <;>
      simp [Report.accepted, haccepted, herr, hfrom, hto]
  · rw [if_neg (by rcases herr with rfl | rfl <;> exact Option.some_ne_none _)]
    rfl

theorem Recorded.sent {rs : List Report} {err : Option SessionError} (h : Recorded rs err) :
    rs.filterMap Report.accepted = [] := by
  rcases h with rfl | ⟨-, ev, rfl⟩ <;> rfl

variable {L : Libraries} {b : Backend} {remoteIP : Bytes} {isTLS : Bool} {log : List Turn}
  {s : Session}

theorem Conversation.envelope_eq (h : Conversation L b remoteIP isTLS log s) :
    (heard log).envelope = s.envelope := by
  induction h with
  | new => rfl
  | next h hran ih =>
    rw [heard_concat, Client.hear, ih]
    exact (Session.on_envelope hran).symm

/-- A turn does what it should with the envelope of the session. -/
theorem Agrees.of_ran {x : Turn} {s' : Session}
    (hran : (s.on L b x.callback).Ran x.trace (s', x.err)) : Agrees s.envelope x where
  data hdata := Session.data_ran (hdata ▸ hran)
  other hother := Session.on_recorded hother hran

theorem Agrees.sentIn_eq {env : Envelope} {x : Turn} (h : Agrees env x) :
    sentIn x.trace = if x.callback = .data ∧ x.err = none then [env] else [] := by
  by_cases hdata : x.callback = .data
  · obtain ⟨msgID, -, hconcludes⟩ := h.data hdata
    rw [sentIn, hconcludes.sent]
    simp [hdata]
  · rw [sentIn, (h.other hdata).sent, if_neg fun hboth => hdata hboth.1]

/-- **The client and the `Sender` agree on every transaction.**  In any conversation, whatever
the session is answered: each DATA is one message under the ID drawn for it, with the sender and
the recipients that the client was told are accepted since the last transaction ended; no other
command has a message sent, and one that is accepted is not recorded as rejected; and the
messages the `Sender` accepted are, in order, those the client was told are. -/
theorem transactions_agree (h : Conversation L b remoteIP isTLS log s) :
    (∀ before x after, log = before ++ x :: after → Agrees (heard before).envelope x) ∧
      log.flatMap (fun x => sentIn x.trace) = (heard log).told := by
  induction h with
  | new => exact ⟨by simp, rfl⟩
  | @next log s s' x h hran ih =>
    -- the envelope the client has given is the one the session has
    have hagrees : Agrees (heard log).envelope x := h.envelope_eq ▸ .of_ran hran
    constructor
    · intro before y after hlog
      rcases List.eq_nil_or_concat after with rfl | ⟨init, last, rfl⟩
      · obtain ⟨rfl, hcons⟩ := List.append_inj' hlog rfl
        obtain rfl := List.head_eq_of_cons_eq hcons
        exact hagrees
      · rw [List.concat_eq_append, ← List.cons_append, ← List.append_assoc] at hlog
        exact ih.1 before y init (List.append_inj' hlog rfl).1
    · rw [heard_concat, List.flatMap_append, ih.2, List.flatMap_singleton, hagrees.sentIn_eq]
      rfl

section Relay

def appAuth : Callback := .auth (.plain (some ([], lit "app.billing", lit "s3cr3t")))

def appMail : Callback := .mail (lit "app@billing.example")

def appRcpt : Callback := .rcpt (lit "bob@example.org")

/-- A turn that goes well. -/
def goodTurn (s : Session) (cb : Callback) : Turn :=
  ⟨cb, (runOn true s cb).1, (runOn true s cb).2.2⟩

theorem Conversation.goodTurn (h : Conversation .plain proxy remoteIP isTLS log s) (cb : Callback) :
    Conversation .plain proxy remoteIP isTLS (log ++ [SMTPProxy.goodTurn s cb])
      (settled cb (runOn true s cb).2.1) :=
  .next h (Prog.ran_run (answers true) _ ())

def rcptSession : Session := (runOn true mailSession appRcpt).2.1

def relayLog : List Turn :=
  [goodTurn newSession appAuth, goodTurn loggedInSession appMail, goodTurn mailSession appRcpt,
    goodTurn rcptSession .data]

/-- A message is given, and sent as it was given. -/
theorem transactions_agree_relay : relayLog.flatMap (fun x => sentIn x.trace) =
    [⟨lit "app@billing.example", [lit "bob@example.org"]⟩] := by
  have hauth : Conversation .plain proxy (lit "10.0.0.7") true _ loggedInSession :=
    Conversation.new.goodTurn appAuth
  have hmail : Conversation .plain proxy _ _ _ mailSession := hauth.goodTurn appMail
  have hrcpt : Conversation .plain proxy _ _ _ rcptSession := hmail.goodTurn appRcpt
  refine (transactions_agree (hrcpt.goodTurn .data)).2.trans ?_
  decide +kernel

end Relay

end SMTPProxy
end Sigillum
