import Sigillum.Session

/-! # Revoked sessions

What the callbacks of one session can do, in any order and with any answers.  The
gateway is asked to send only at the end of DATA, for a caller that is identified, and,
after a credential login, only once the login has been found valid behind the message's
last byte.  A session whose login has been found invalid is over: it neither sends nor
falls back to the pod's address, whatever AUTH commands follow.

`Allowed` is what each call of a callback can rely on, `Leaves` what a callback leaves
behind; the main theorem carries both along the callbacks of a session.
-/
namespace Sigillum
open Bytes Interaction

namespace SMTPProxy

abbrev SessionTrace := Trace Call Call.Answer

/-- The credential of a login was found invalid. -/
def Refused (t : SessionTrace) : Prop :=
  ∃ r, (⟨.stillValid r, .error .invalid⟩ : Event Call Call.Answer) ∈ t

/-- The message was read, and the login found valid after that. -/
def Rechecked (r : Credential.Result) (t : SessionTrace) : Prop :=
  ∃ t₁ content t₂ previous t₃,
    t = t₁ ++ ⟨.read, .ok content⟩ :: (t₂ ++ ⟨.stillValid r, .ok previous⟩ :: t₃)

/-- What a callback on the session `s` has to have done when it makes a call. -/
def Allowed (cb : Callback) (s : Session) (t : SessionTrace) : Call → Prop
  | .send req => cb = .data ∧ s.revoked = false ∧ ¬ Refused t ∧
      (∃ id previous, s.identity = some id ∧
        req.identity = { id with credentialPrevious := previous }) ∧
      ∀ r, s.cred = some r → Rechecked r t
  | .resolveIP _ => s.revoked = false ∧ ¬ Refused t
  | _ => True

/-- What a callback on the session `s` leaves: a session that is revoked stays revoked,
one whose login is found invalid becomes so, and a login comes with an identity. -/
structure Leaves (s : Session) (t : SessionTrace) (s' : Session) : Prop where
  revoked : s.revoked = true ∨ Refused t → s'.revoked = true
  identified : (s.cred.isSome = true → s.identity.isSome = true) →
    s'.cred.isSome = true → s'.identity.isSome = true

/-- What is neither a send, nor a look at the pod's address, nor a check of the login. -/
def Call.Quiet : Call → Prop
  | .send _ | .resolveIP _ | .stillValid _ => False
  | _ => True

/-- Calls that do not even report anything. -/
def Call.Unseen : Call → Prop
  | .send _ | .resolveIP _ | .stillValid _ | .reject _ _ => False
  | _ => True

theorem Call.Unseen.quiet (c : Call) (h : c.Unseen) : c.Quiet := by
  cases c <;> trivial

theorem Call.Quiet.allowed {c : Call} (h : c.Quiet) (cb : Callback) (s : Session)
    (t : SessionTrace) : Allowed cb s t c := by
  cases c <;> trivial

theorem refused_append {t t' : SessionTrace} : Refused (t ++ t') ↔ Refused t ∨ Refused t' := by
  constructor
  · rintro ⟨r, h⟩
    exact (List.mem_append.mp h).imp (⟨r, ·⟩) (⟨r, ·⟩)
  · rintro (⟨r, h⟩ | ⟨r, h⟩)
    · exact ⟨r, List.mem_append_left _ h⟩
    · exact ⟨r, List.mem_append_right _ h⟩

theorem not_refused_of_quiet {t : SessionTrace} (h : ∀ e ∈ t, e.1.Quiet) : ¬ Refused t :=
  fun ⟨_, hr⟩ => h _ hr

/-- Only one event can refuse the login. -/
theorem refused_concat {t : SessionTrace} {e : Event Call Call.Answer}
    (h : ∀ r, e ≠ ⟨.stillValid r, .error .invalid⟩) : Refused (t ++ [e]) ↔ Refused t := by
  rw [refused_append, or_iff_left]
  rintro ⟨r, hr⟩
  exact h r (List.mem_singleton.mp hr).symm

theorem Leaves.concat {s s' : Session} {t : SessionTrace} {e : Event Call Call.Answer}
    (h : Leaves s t s') (he : ∀ r, e ≠ ⟨.stillValid r, .error .invalid⟩) :
    Leaves s (t ++ [e]) s' :=
  ⟨fun hor => h.revoked (hor.imp_right (refused_concat he).mp), h.identified⟩

/-! ## Parts of callbacks -/

namespace Session
variable {L : Libraries} {b : Backend} {s : Session} {cb : Callback} {t : SessionTrace}
  {P : Event Call Call.Answer → Prop}

/-- A part that is quiet adds to the trace, and refuses nothing. -/
theorem keeps_of_quiet {α : Type} {p : Prog Call Call.Answer α} (h : p.Only Call.Quiet)
    (s : Session) (cb : Callback) (t : SessionTrace) :
    p.Keeps P (Allowed cb s) (fun t' _ => ∃ new, t' = t ++ new ∧ ∀ e ∈ new, e.1.Quiet) t :=
  h.keeps (fun t _ hc => hc.allowed cb s t) t

theorem rejectMessage_quiet (msgID reason fromAddr : Bytes) (toAddrs : List Bytes) :
    (s.rejectMessage msgID reason fromAddr toAddrs).Only Call.Quiet :=
  Prog.only_perform.mpr trivial

theorem rejectCommand_quiet (reason fromAddr : Bytes) (toAddrs : List Bytes) :
    (s.rejectCommand reason fromAddr toAddrs).Only Call.Quiet :=
  (Prog.only_perform.mpr trivial).bind fun _ => rejectMessage_quiet ..

theorem rejectUnauthenticated_quiet (reason : Bytes) :
    (rejectUnauthenticated reason).Only Call.Quiet :=
  (Prog.only_perform.mpr trivial).bind fun _ => Prog.only_perform.mpr trivial

theorem authFailed_quiet (username reason : Bytes) :
    (authFailed username reason).Only Call.Quiet :=
  (Prog.only_perform.mpr trivial).bind fun _ => Prog.only_perform.mpr trivial

theorem rejectToken_quiet (reason : Bytes) : (rejectToken reason).Only Call.Quiet :=
  (Prog.only_perform.mpr trivial).bind fun _ => Prog.only_perform.mpr trivial

theorem verifyLogin_unseen (username password : Bytes) :
    (verifyLogin b s username password).Only Call.Unseen := by
  refine (Prog.only_perform.mpr trivial).bind fun res => ?_
  cases res with
  | error err => trivial
  | ok mc =>
    dsimp only
    split
    · exact (Prog.only_perform.mpr trivial).bind fun _ => trivial
    · refine (Prog.only_perform.mpr trivial).bind fun turn => ?_
      cases turn with
      | error err => cases err <;> trivial
      | ok _ =>
        refine (Prog.only_perform.mpr trivial).bind fun res => ?_
        exact (Prog.only_perform.mpr trivial).bind fun _ => trivial

/-! ## AUTH -/

/-- What an AUTH command can make of a session: nothing, a credential login, or another
identity. -/
inductive Authenticated (s : Session) : Session → Prop
  | same : Authenticated s s
  | login (res : Credential.Result) : Authenticated s (s.loggedIn res)
  | token (id : Identity) : Authenticated s { s with identity := some id }

/-- A part of AUTH: it is quiet, and comes to such a session. -/
def Authenticates (s : Session) (p : Action) : Prop :=
  p.Only Call.Quiet ∧ p.Returns fun out => Authenticated s out.1

theorem authenticates_return (err : Option SessionError) : Authenticates s (return (s, err)) :=
  ⟨trivial, .same⟩

theorem authenticates_bind {α : Type} {p : Prog Call Call.Answer α} {f : α → Action}
    (hp : p.Only Call.Quiet) (hf : ∀ a, Authenticates s (f a)) : Authenticates s (p >>= f) :=
  ⟨hp.bind fun a => (hf a).1, .bind fun a => (hf a).2⟩

theorem credentialLogin_authenticates (username password : Bytes) :
    Authenticates s (s.credentialLogin b username password) := by
  refine authenticates_bind ((verifyLogin_unseen ..).mono Call.Unseen.quiet) fun res => ?_
  split
  · exact authenticates_bind (authFailed_quiet ..) fun _ => authenticates_return _
  · exact authenticates_bind (authFailed_quiet ..) fun _ => authenticates_return _
  · exact authenticates_bind (authFailed_quiet ..) fun _ => authenticates_return _
  · exact ⟨trivial, .login _⟩

theorem plainLogin_authenticates (identity username password : Bytes) :
    Authenticates s (s.plainLogin b identity username password) := by
  unfold plainLogin
  split
  · exact authenticates_bind (authFailed_quiet ..) fun _ => authenticates_return _
  · exact credentialLogin_authenticates ..

theorem tokenLogin_authenticates (token : Bytes) : Authenticates s (s.tokenLogin token) := by
  refine authenticates_bind (Prog.only_perform.mpr trivial) fun res => ?_
  split
  · exact authenticates_bind (rejectToken_quiet _) fun _ => authenticates_return _
  · exact authenticates_bind (rejectToken_quiet _) fun _ => authenticates_return _
  · exact ⟨trivial, .token _⟩

theorem credentialAuth_authenticates {login : Option Action}
    (h : ∀ p ∈ login, Authenticates s p) : Authenticates s (s.credentialAuth b login) := by
  unfold credentialAuth
  split
  · exact authenticates_return _
  · split
    · exact authenticates_return _
    · split
      · exact h _ rfl
      · exact authenticates_return _

theorem auth_authenticates (x : Exchange) : Authenticates s (s.auth b x) := by
  cases x with
  | unknown => exact authenticates_return _
  | oauthBearer token =>
    dsimp only [auth]
    split
    · exact authenticates_return _
    · cases token with
      | none => exact authenticates_return _
      | some token => exact tokenLogin_authenticates token
  | plain login =>
    refine credentialAuth_authenticates fun p hp => ?_
    obtain ⟨⟨identity, username, password⟩, -, rfl⟩ := Option.mem_map.mp hp
    exact plainLogin_authenticates identity username password
  | login responses =>
    refine credentialAuth_authenticates fun p hp => ?_
    obtain ⟨⟨username, password⟩, -, rfl⟩ := Option.mem_map.mp hp
    exact credentialLogin_authenticates username password

theorem Authenticated.leaves {s' : Session} (h : Authenticated s s')
    (ht : ¬ Refused t) : Leaves s t s' := by
  cases h with
  | same => exact ⟨fun h => h.resolve_right ht, id⟩
  | login res => exact ⟨fun h => h.resolve_right ht, fun _ _ => rfl⟩
  | token id => exact ⟨fun h => h.resolve_right ht, fun _ _ => rfl⟩

theorem auth_keeps (x : Exchange) :
    (s.auth b x).Keeps P (Allowed cb s) (fun t' out => Leaves s t' out.1) [] := by
  obtain ⟨hquiet, hreturns⟩ := auth_authenticates (b := b) (s := s) x
  refine ((keeps_of_quiet hquiet s cb []).and_returns hreturns).mono ?_
  rintro t' out ⟨⟨new, rfl, hnew⟩, hout⟩
  exact hout.leaves (not_refused_of_quiet hnew)

/-! ## The check of the login -/

/-- The session goes on: it is not revoked, and if there is a login, it was just found
valid. -/
structure Passed (s : Session) (t t' : SessionTrace) (s' : Session) : Prop where
  fresh : s.revoked = false
  kept : s'.revoked = s.revoked ∧ s'.cred = s.cred ∧ s'.identity.isSome = s.identity.isSome
  identity : ∀ id', s'.identity = some id' → ∃ id previous, s.identity = some id ∧
    id' = { id with credentialPrevious := previous }
  clean : ¬ Refused t'
  rechecked : ∀ r, s.cred = some r → ∃ previous, t' = t ++ [⟨.stillValid r, .ok previous⟩]

theorem Passed.leaves {t' : SessionTrace} {s' : Session} (h : Passed s t t' s') :
    Leaves s t' s' := by
  obtain ⟨hrevoked, hcred, hidentity⟩ := h.kept
  refine ⟨fun hor => ?_, fun hs hs' => ?_⟩
  · rcases hor with hold | hnew
    · rwa [hrevoked]
    · exact absurd hnew h.clean
  · rw [hidentity]
    exact hs (hcred ▸ hs')

/-- The check ends the callback with an error, or lets it go on. -/
def Checked (s : Session) (t t' : SessionTrace) (out : Session × Option SessionError) : Prop :=
  match out.2 with
  | some _ => Leaves s t' out.1
  | none => Passed s t t' out.1

theorem checkCredential_keeps (msgID fromAddr : Bytes) (toAddrs : List Bytes)
    (ht : ¬ Refused t) :
    (s.checkCredential msgID fromAddr toAddrs).Keeps P (Allowed cb s)
      (fun t' out => Checked s t t' out) t := by
  unfold checkCredential
  split
  · exact Prog.keeps_pure.mpr ⟨fun h => h.resolve_right ht, id⟩
  · rename_i hrevoked
    have hfresh : s.revoked = false := by simpa using hrevoked
    split
    · rename_i hcred
      exact Prog.keeps_pure.mpr ⟨hfresh, ⟨rfl, rfl, rfl⟩,
        fun id hid => ⟨id, id.credentialPrevious, hid, rfl⟩, ht,
        fun r hr => absurd (hcred.symm.trans hr) nofun⟩
    · rename_i r hcred
      refine Prog.keeps_call.mpr ⟨trivial, fun answer _ => ?_⟩
      cases answer with
      | error err =>
        cases err with
        | invalid =>
          refine Prog.keeps_call.mpr ⟨trivial, fun _ _ => ?_⟩
          exact Prog.keeps_pure.mpr ⟨fun _ => rfl, fun _ h => absurd h nofun⟩
        | other err =>
          refine Prog.keeps_call.mpr ⟨trivial, fun _ _ => ?_⟩
          refine Prog.keeps_pure.mpr ⟨fun h => h.resolve_right ?_, id⟩
          rw [refused_concat (fun _ h => by cases h), refused_concat (fun _ h => by cases h)]
          exact ht
      | ok previous =>
        refine Prog.keeps_pure.mpr ⟨hfresh, ⟨rfl, rfl, by simp⟩, fun id' hid' => ?_, ?_, ?_⟩
        · obtain ⟨id, hid, rfl⟩ := Option.map_eq_some_iff.mp hid'
          exact ⟨id, previous, hid, rfl⟩
        · rw [refused_concat (fun _ h => by cases h)]
          exact ht
        · intro r' hr'
          obtain rfl := Option.some.inj (hcred.symm.trans hr')
          exact ⟨previous, rfl⟩

/-! ## MAIL, RCPT and RSET -/

/-- A part that is quiet and leaves identity, login and revocation as they are. -/
def Harmless (s : Session) (p : Action) : Prop :=
  p.Only Call.Quiet ∧ p.Returns fun out =>
    out.1.revoked = s.revoked ∧ out.1.cred = s.cred ∧ out.1.identity = s.identity

theorem harmless_refuse {p : Prog Call Call.Answer Unit} (hp : p.Only Call.Quiet)
    (err : Option SessionError) : Harmless s (do p; return (s, err)) :=
  ⟨hp.bind fun _ => trivial, .bind fun _ => ⟨rfl, rfl, rfl⟩⟩

theorem acceptSender_harmless (fromAddr : Bytes) : Harmless s (s.acceptSender L fromAddr) := by
  unfold acceptSender
  split
  · exact harmless_refuse (rejectCommand_quiet ..) _
  · split
    · exact harmless_refuse (rejectCommand_quiet ..) _
    · exact ⟨trivial, rfl, rfl, rfl⟩

theorem rcpt_harmless (toAddr : Bytes) : Harmless s (s.rcpt L toAddr) := by
  unfold rcpt
  split
  · exact harmless_refuse (rejectCommand_quiet ..) _
  · exact ⟨trivial, rfl, rfl, rfl⟩

/-- A harmless part leaves what the part before it left. -/
theorem Harmless.keeps {s' : Session} {p : Action} (hp : Harmless s' p) (h : Leaves s t s') :
    p.Keeps P (Allowed cb s) (fun t' out => Leaves s t' out.1) t := by
  refine ((keeps_of_quiet hp.1 s cb t).and_returns hp.2).mono ?_
  rintro t' out ⟨⟨new, rfl, hnew⟩, hrevoked, hcred, hidentity⟩
  refine ⟨fun hor => ?_, fun hs hout => ?_⟩
  · rw [refused_append, or_iff_left (not_refused_of_quiet hnew)] at hor
    rw [hrevoked]
    exact h.revoked hor
  · rw [hidentity]
    exact h.identified hs (hcred ▸ hout)

/-- Nothing has happened yet. -/
theorem leaves_nil : Leaves s [] s := ⟨fun h => h.resolve_right nofun, id⟩

/-- Only a session that goes on is identified by the pod's address. -/
theorem identifyByPodIP_keeps {s' : Session} {t₀ : SessionTrace} (h : Passed s t₀ t s')
    (hnone : s'.identity = none) :
    (s'.identifyByPodIP b).Keeps P (Allowed cb s) (fun t' out => Leaves s t' out.1) t := by
  obtain ⟨hrevoked, hcred, hidentity⟩ := h.kept
  -- no login is open, as it would have come with an identity
  have hleaves : ∀ (t' : SessionTrace) (s'' : Session), ¬ Refused t' → s''.cred = s'.cred →
      Leaves s t' s'' := by
    intro t' s'' hclean hcred''
    refine ⟨fun hor => ?_, fun hs hout => ?_⟩
    · rcases hor with hold | hnew
      · rw [h.fresh] at hold
        cases hold
      · exact absurd hnew hclean
    · rw [hcred'', hcred] at hout
      have hsome := hs hout
      rw [← hidentity, hnone] at hsome
      cases hsome
  unfold identifyByPodIP
  split
  · refine Prog.keeps_bind.mpr ((keeps_of_quiet (rejectUnauthenticated_quiet _) s cb t).mono ?_)
    rintro t' _ ⟨new, rfl, hnew⟩
    refine Prog.keeps_pure.mpr (hleaves _ _ ?_ rfl)
    rw [refused_append, or_iff_left (not_refused_of_quiet hnew)]
    exact h.clean
  · refine Prog.keeps_call.mpr ⟨⟨h.fresh, h.clean⟩, fun pod _ => ?_⟩
    have hclean : ¬ Refused (t ++ [⟨.resolveIP s'.remoteIP, pod⟩]) := by
      rw [refused_concat (fun _ h => by cases h)]
      exact h.clean
    cases pod with
    | error err =>
      refine Prog.keeps_bind.mpr ((keeps_of_quiet (rejectUnauthenticated_quiet _) s cb _).mono ?_)
      rintro t' _ ⟨new, rfl, hnew⟩
      refine Prog.keeps_pure.mpr (hleaves _ _ ?_ rfl)
      rw [refused_append, or_iff_left (not_refused_of_quiet hnew)]
      exact hclean
    | ok pod => exact Prog.keeps_pure.mpr (hleaves _ _ hclean rfl)

theorem mail_keeps (fromAddr : Bytes) :
    (s.mail L b fromAddr).Keeps P (Allowed cb s) (fun t' out => Leaves s t' out.1) [] := by
  refine Prog.keeps_call.mpr ⟨trivial, fun msgID _ => ?_⟩
  have hclean : ¬ Refused [⟨.newID, msgID⟩] := not_refused_of_quiet (by simp [Call.Quiet])
  refine Prog.keeps_bind.mpr ((checkCredential_keeps msgID fromAddr [] hclean).mono ?_)
  rintro t' ⟨s', err⟩ hchecked
  cases err with
  | some err => exact Prog.keeps_pure.mpr hchecked
  | none =>
    have hpassed : Passed s _ t' s' := hchecked
    simp only [Option.isSome_none, Bool.false_eq_true, if_false]
    split
    · rename_i hnone
      refine Prog.keeps_bind.mpr ((identifyByPodIP_keeps hpassed hnone).mono ?_)
      rintro t'' ⟨s'', err⟩ hleaves
      cases err with
      | some err => exact Prog.keeps_pure.mpr hleaves
      | none => exact (acceptSender_harmless fromAddr).keeps hleaves
    · exact (acceptSender_harmless fromAddr).keeps hpassed.leaves

/-! ## DATA -/

theorem missingOriginationHeaders_unseen (h : List HeaderBlock.Field) (msgID fromAddr : Bytes) :
    (missingOriginationHeaders h msgID fromAddr).Only Call.Unseen := by
  have hdate : (missingDate h).Only Call.Unseen := by
    unfold missingDate
    split
    · exact (Prog.only_perform.mpr trivial).bind fun _ => trivial
    · trivial
  exact hdate.bind fun _ => trivial

theorem readFailed_harmless (msgID : Bytes) (ev : SessionEvent) (err : DataError) :
    Harmless s (s.readFailed b msgID ev err) := by
  cases err with
  | tooLarge err => exact harmless_refuse (Prog.only_perform.mpr trivial) _
  | other err => exact harmless_refuse (Prog.only_perform.mpr trivial) _
  | deadlineExceeded =>
    exact ⟨(Prog.only_perform.mpr trivial).bind fun _ => (Prog.only_perform.mpr trivial).bind
      fun _ => trivial, .bind fun _ => .bind fun _ => ⟨rfl, rfl, rfl⟩⟩
  | tooLongLine =>
    exact ⟨(Prog.only_perform.mpr trivial).bind fun _ => (Prog.only_perform.mpr trivial).bind
      fun _ => trivial, .bind fun _ => .bind fun _ => ⟨rfl, rfl, rfl⟩⟩

theorem busy_harmless (msgID : Bytes) (ev : SessionEvent) (message : Bytes) :
    Harmless s (s.busy msgID ev message) :=
  harmless_refuse (Prog.only_perform.mpr trivial) _

/-- The message is sent only after the check of the login that follows its last byte. -/
theorem relay_keeps (msgID trace raw : Bytes) (msg : HeaderBlock.Message) (hdr : AddressHeaders)
    {content : Bytes} (hclean : ¬ Refused t)
    (hread : (⟨.read, .ok content⟩ : Event Call Call.Answer) ∈ t) :
    (s.relay b msgID trace raw msg hdr).Keeps P (Allowed .data s)
      (fun t' out => Leaves s t' out.1) t := by
  refine Prog.keeps_bind.mpr
    ((keeps_of_quiet ((missingOriginationHeaders_unseen ..).mono Call.Unseen.quiet) s .data
      t).mono ?_)
  rintro t₁ added ⟨new, rfl, hnew⟩
  have hclean₁ : ¬ Refused (t ++ new) := by
    rw [refused_append, or_iff_left (not_refused_of_quiet hnew)]
    exact hclean
  refine Prog.keeps_bind.mpr ((checkCredential_keeps msgID _ _ hclean₁).mono ?_)
  rintro t₂ ⟨s', err⟩ hchecked
  cases err with
  | some err => exact Prog.keeps_pure.mpr hchecked
  | none =>
    have hpassed : Passed s _ t₂ s' := hchecked
    dsimp only
    split
    · rename_i id' hid'
      refine Prog.keeps_call.mpr ⟨?_, fun res _ => ?_⟩
      · refine ⟨rfl, hpassed.fresh, hpassed.clean, ?_, fun r hr => ?_⟩
        · exact hpassed.identity id' hid'
        · obtain ⟨previous, rfl⟩ := hpassed.rechecked r hr
          obtain ⟨before, after, rfl⟩ := List.append_of_mem hread
          exact ⟨before, content, after ++ new, previous, [], by simp⟩
      · exact Prog.keeps_pure.mpr (hpassed.leaves.concat (fun _ h => by cases h))
    · exact Prog.keeps_pure.mpr hpassed.leaves

theorem receive_keeps (identity : Identity) (msgID : Bytes) (ev : SessionEvent)
    (hclean : ¬ Refused t) :
    (s.receive L b identity msgID ev).Keeps P (Allowed .data s)
      (fun t' out => Leaves s t' out.1) t := by
  refine Prog.keeps_call.mpr ⟨trivial, fun date _ => ?_⟩
  refine Prog.keeps_call.mpr ⟨trivial, fun res _ => ?_⟩
  have hclean' : ¬ Refused (t ++ [⟨.date, date⟩] ++ [⟨.read, res⟩]) := by
    rw [refused_concat (fun _ h => by cases h), refused_concat (fun _ h => by cases h)]
    exact hclean
  have hsame : Leaves s (t ++ [⟨.date, date⟩] ++ [⟨.read, res⟩]) s :=
    ⟨fun h => h.resolve_right hclean', id⟩
  cases res with
  | error err => exact (readFailed_harmless msgID ev err).keeps hsame
  | ok content =>
    dsimp only
    split
    · exact (harmless_refuse (Prog.only_perform.mpr trivial) _).keeps hsame
    · exact relay_keeps msgID _ _ _ _ hclean' (List.mem_append_right _ List.mem_cons_self)

theorem dataInTenant_keeps (identity : Identity) (msgID : Bytes) (ev : SessionEvent)
    (hclean : ¬ Refused t) :
    (s.dataInTenant L b identity msgID ev).Keeps P (Allowed .data s)
      (fun t' out => Leaves s t' out.1) t := by
  unfold dataInTenant
  split
  · refine Prog.keeps_call.mpr ⟨trivial, fun slot _ => ?_⟩
    have hclean' : ¬ Refused (t ++ [⟨.acquireSlot, slot⟩]) := by
      rw [refused_concat (fun _ h => by cases h)]
      exact hclean
    split
    · refine Prog.keeps_bind.mpr ((receive_keeps identity msgID ev hclean').mono ?_)
      intro t' out hleaves
      refine Prog.keeps_call.mpr ⟨trivial, fun _ _ => ?_⟩
      exact Prog.keeps_pure.mpr (hleaves.concat (fun _ h => by cases h))
    · exact (busy_harmless msgID ev _).keeps ⟨fun h => h.resolve_right hclean', id⟩
  · exact receive_keeps identity msgID ev hclean

theorem data_keeps : (s.data L b).Keeps P (Allowed .data s)
    (fun t' out => Leaves s t' out.1) [] := by
  refine Prog.keeps_call.mpr ⟨trivial, fun msgID _ => ?_⟩
  have hclean : ¬ Refused [⟨.newID, msgID⟩] := not_refused_of_quiet (by simp [Call.Quiet])
  split
  · exact Prog.keeps_pure.mpr ⟨fun h => h.resolve_right hclean, id⟩
  · rename_i identity hidentity
    refine Prog.keeps_call.mpr ⟨trivial, fun turn _ => ?_⟩
    have hclean' : ¬ Refused ([⟨.newID, msgID⟩] ++ [⟨.acquireTenant identity.ns, turn⟩]) := by
      rw [refused_concat (fun _ h => by cases h)]
      exact hclean
    split
    · refine Prog.keeps_bind.mpr ((dataInTenant_keeps identity msgID _ hclean').mono ?_)
      intro t' out hleaves
      refine Prog.keeps_call.mpr ⟨trivial, fun _ _ => ?_⟩
      exact Prog.keeps_pure.mpr (hleaves.concat (fun _ h => by cases h))
    · exact (busy_harmless msgID _ _).keeps ⟨fun h => h.resolve_right hclean', id⟩

/-! ## Any callback -/

/-- Every callback makes only calls that are allowed, and leaves what it should. -/
theorem on_keeps (cb : Callback) :
    (s.on L b cb).Keeps P (Allowed cb s) (fun t' out => Leaves s t' out.1) [] := by
  cases cb with
  | auth x => exact auth_keeps x
  | mail fromAddr => exact mail_keeps fromAddr
  | rcpt toAddr => exact (rcpt_harmless toAddr).keeps leaves_nil
  | data => exact data_keeps
  | reset => exact Prog.keeps_pure.mpr ⟨fun h => h.resolve_right nofun, id⟩

end Session

/-! ## Whole sessions -/

/-- The callbacks of a session so far, with what each did, and where it stands. -/
inductive Visited (L : Libraries) (b : Backend) (remoteIP : Bytes) (isTLS : Bool) :
    List (Callback × SessionTrace) → Session → Prop
  | new : Visited L b remoteIP isTLS [] { remoteIP := remoteIP, isTLS := isTLS }
  | next {past : List (Callback × SessionTrace)} {s s' : Session} {cb : Callback}
    {t : SessionTrace} {err : Option SessionError} (h : Visited L b remoteIP isTLS past s)
    (hran : (s.on L b cb).Ran t (s', err)) :
    Visited L b remoteIP isTLS (past ++ [(cb, t)]) s'

variable {L : Libraries} {b : Backend} {remoteIP : Bytes} {isTLS : Bool}
  {past : List (Callback × SessionTrace)} {s : Session}

/-- A session whose login was found invalid is revoked, and a login comes with an
identity, which is what `checkCredential` writes to. -/
theorem Visited.revoked (h : Visited L b remoteIP isTLS past s) :
    ((∃ x ∈ past, Refused x.2) → s.revoked = true) ∧
      (s.cred.isSome = true → s.identity.isSome = true) := by
  induction h with
  | new => exact ⟨nofun, nofun⟩
  | @next past s s' cb t err h hran ih =>
    obtain ⟨-, hleaves⟩ := hran.keeps (P := fun _ => True) (Session.on_keeps cb) fun _ _ => trivial
    refine ⟨?_, hleaves.identified ih.2⟩
    rintro ⟨x, hx, hrefused⟩
    rcases List.mem_append.mp hx with hold | hlast
    · exact hleaves.revoked (.inl (ih.1 ⟨x, hold, hrefused⟩))
    · obtain rfl := List.mem_singleton.mp hlast
      exact hleaves.revoked (.inr hrefused)

/-- **A revoked session never sends again.**  In any session and for any callback of it:
the gateway is asked to send only by DATA, for an identity the session has; if the
session holds a credential login, that login was found valid after the message was
read and before it is sent; and once a login has been found invalid, nothing is sent
and no pod address is looked up, in that callback or in any later one. -/
theorem revoked_never_sends (h : Visited L b remoteIP isTLS past s) {cb : Callback}
    {t : SessionTrace} {s' : Session} {err : Option SessionError}
    (hran : (s.on L b cb).Ran t (s', err)) :
    (∀ before req res after, t = before ++ ⟨.send req, res⟩ :: after →
      cb = .data ∧
      (∃ id previous, s.identity = some id ∧
        req.identity = { id with credentialPrevious := previous }) ∧
      ∀ r, s.cred = some r → Rechecked r before) ∧
    ∀ before e after, t = before ++ e :: after →
      (∃ x ∈ past, Refused x.2) ∨ Refused before →
      (∀ req, e.1 ≠ .send req) ∧ ∀ ip, e.1 ≠ .resolveIP ip := by
  obtain ⟨hmeets, -⟩ := hran.keeps (P := fun _ => True) (Session.on_keeps cb) fun _ _ => trivial
  constructor
  · intro before req res after ht
    obtain ⟨hcb, -, -, hidentity, hrechecked⟩ := (hmeets before after _ ht).1
    exact ⟨hcb, hidentity, hrechecked⟩
  · intro before e after ht hrefused
    have hallowed := (hmeets before after e ht).1
    -- what was found invalid contradicts both calls
    have hno : ¬ (s.revoked = false ∧ ¬ Refused before) := by
      rintro ⟨hfresh, hclean⟩
      rcases hrefused with hpast | hbefore
      · rw [h.revoked.1 hpast] at hfresh
        cases hfresh
      · exact hclean hbefore
    constructor
    · intro req he
      rw [he] at hallowed
      exact hno ⟨hallowed.2.1, hallowed.2.2.1⟩
    · intro ip he
      rw [he] at hallowed
      exact hno hallowed

section Sending

/-- A proxy with credentials, tokens and pods. -/
def proxy : Backend := ⟨true, true, true, false, false, false, 2000, fun _ n => n⟩

/-- A login to the credential. -/
def appLogin : Credential.Result :=
  { Credential.resultOf Credential.generatedCredential with
    hash := Credential.hashGenerated .plain (lit "s3cr3t") }

/-- Answers under which everything goes well, as long as the login is `valid`. -/
def answers (valid : Bool) : Unit → (c : Call) → c.Answer × Unit
  | _, .newID => (lit "id", ())
  | _, .date => (lit "Thu, 01 Jan 1970 00:00:00 +0000", ())
  | _, .authenticate _ => (.ok ⟨lit "billing", lit "mailer"⟩, ())
  | _, .lookup _ => (.ok Credential.generatedCredential, ())
  | _, .begin _ _ => (.ok (), ())
  | _, .check _ _ => (.ok appLogin, ())
  | _, .done _ => ((), ())
  | _, .stillValid _ => (if valid then .ok false else .error .invalid, ())
  | _, .resolveIP _ => (.ok ⟨lit "billing", lit "default", []⟩, ())
  | _, .acquireTenant _ => (true, ())
  | _, .releaseTenant => ((), ())
  | _, .acquireSlot => (true, ())
  | _, .releaseSlot => ((), ())
  | _, .read => (.ok (lit "From: app@billing.example\r\n\r\nbody\r\n"), ())
  | _, .closeAfterReply => ((), ())
  | _, .reject _ _ => ((), ())
  | _, .send _ => ({ status := .accepted, policy := lit "billing/app" }, ())

/-- A callback under these answers. -/
def runOn (valid : Bool) (s : Session) (cb : Callback) :
    SessionTrace × Session × Option SessionError :=
  ((s.on .plain proxy cb).run (answers valid) () []).2

theorem Visited.runOn (h : Visited .plain proxy remoteIP isTLS past s) (valid : Bool)
    (cb : Callback) : Visited .plain proxy remoteIP isTLS
      (past ++ [(cb, (SMTPProxy.runOn valid s cb).1)]) (SMTPProxy.runOn valid s cb).2.1 :=
  .next h (Prog.ran_run (answers valid) _ ())

def newSession : Session := { remoteIP := lit "10.0.0.7", isTLS := true }

/-- The session after the login, and after MAIL. -/
def loggedInSession : Session :=
  (runOn true newSession (.auth (.plain (some ([], lit "app.billing", lit "s3cr3t"))))).2.1

def mailSession : Session := (runOn true loggedInSession (.mail (lit "app@billing.example"))).2.1

/-- The session after a DATA that found the login invalid, and a new AUTH. -/
def revokedSession : Session :=
  (runOn true (runOn false mailSession .data).2.1 (.auth (.oauthBearer (some (lit "token"))))).2.1

def Call.isSend : Call → Bool
  | .send _ => true
  | _ => false

def refuses : Event Call Call.Answer → Bool
  | ⟨.stillValid _, .error .invalid⟩ => true
  | _ => false

theorem refused_of_any {t : SessionTrace} (h : t.any refuses = true) : Refused t := by
  obtain ⟨e, he, hrefuses⟩ := List.any_eq_true.mp h
  unfold refuses at hrefuses
  split at hrefuses
  · exact ⟨_, he⟩
  · cases hrefuses

/-- The message is sent while the login is valid, and no longer once it was not. -/
theorem revoked_never_sends_relayed :
    (∃ before req res after, (runOn true mailSession .data).1 =
        before ++ ⟨.send req, res⟩ :: after ∧ Rechecked appLogin before) ∧
      revokedSession.identity.isSome = true ∧
      ∀ e ∈ (runOn true revokedSession .data).1, ∀ req, e.1 ≠ .send req := by
  have hmail : ∃ past, Visited .plain proxy (lit "10.0.0.7") true past mailSession :=
    ⟨_, (Visited.new.runOn true _).runOn true _⟩
  obtain ⟨past, hmail⟩ := hmail
  refine ⟨?_, by decide +kernel, ?_⟩
  · have hsends : (runOn true mailSession .data).1.any (fun e => e.1.isSend) = true := by
      decide +kernel
    obtain ⟨⟨c, res⟩, hmem, hsend⟩ := List.any_eq_true.mp hsends
    obtain ⟨before, after, ht⟩ := List.append_of_mem hmem
    cases c with
    | send req =>
      have hran : (mailSession.on .plain proxy .data).Ran (runOn true mailSession .data).1
        (runOn true mailSession .data).2 := Prog.ran_run (answers true) _ ()
      obtain ⟨-, -, hrechecked⟩ := (revoked_never_sends hmail hran).1 before req res after ht
      exact ⟨before, req, res, after, ht, hrechecked appLogin (by decide +kernel)⟩
    | _ => cases hsend
  · intro e he
    obtain ⟨before, after, ht⟩ := List.append_of_mem he
    have hrevoked := (hmail.runOn false .data).runOn true
      (.auth (.oauthBearer (some (lit "token"))))
    have hran : (revokedSession.on .plain proxy .data).Ran (runOn true revokedSession .data).1
        (runOn true revokedSession .data).2 := Prog.ran_run (answers true) _ ()
    have hrefused : Refused (runOn false mailSession .data).1 :=
      refused_of_any (by decide +kernel)
    refine ((revoked_never_sends hrevoked hran).2 before e after ht (.inl ?_)).1
    exact ⟨_, List.mem_append_left _ (List.mem_append_right _ List.mem_cons_self), hrefused⟩

end Sending

end SMTPProxy
end Sigillum
