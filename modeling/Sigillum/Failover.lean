import Sigillum.Handling
import Sigillum.SMTPDriver

/-! # A message is handed over at most once

Every run of `sendBody`, whatever the endpoints answer.  Its trace falls into
`conversations`, one an endpoint it dialled.  Once an endpoint has been given the
MAIL command the loop ends there, so no other endpoint can be given the message
(`sendBody_hands_over_once`).

A failure is permanent if a reply of 500 or more made it so.  That is a 5xx reply as
long as relays keep to SMTP, whose codes end at 599; `net/textproto` lets them go on
to 999.
-/
namespace Sigillum
namespace SMTP
open Bytes Interaction

/-! ## Reading a trace -/

/-- The endpoint an event dials. -/
def dialOf : Event Call Call.Answer → Option SMTPEndpoint
  | ⟨.command (.dial ep), _⟩ => some ep
  | _ => none

/-- What was done with each endpoint, from its dial to the next. -/
def conversations : Trace Call Call.Answer → List (SMTPEndpoint × Trace Call Call.Answer)
  | [] => []
  | e :: t =>
    match dialOf e with
    | some ep => (ep, e :: t.takeWhile fun e => (dialOf e).isNone) :: conversations t
    | none => conversations t

/-- An endpoint is given the MAIL command. -/
def Call.isMail : Call → Bool
  | .command (.mail _) => true
  | _ => false

/-- The body is sent. -/
def Call.isWrite : Call → Bool
  | .command (.write _) => true
  | _ => false

/-- The recipient an event finds accepted. -/
def acceptedRcpt : Event Call Call.Answer → Option Bytes
  | ⟨.command (.rcpt r), none⟩ => some r
  | _ => none

/-- The commands of the MAIL/RCPT/DATA phase. -/
def Command.judges : Command → Bool
  | .mail _ | .rcpt _ | .data | .write _ | .close => true
  | _ => false

/-- The error of a command of the MAIL/RCPT/DATA phase. -/
def judgement : Event Call Call.Answer → Option CommandError
  | ⟨.command c, some err⟩ => if c.judges then some err else none
  | _ => none

/-- The final dot was answered without an error. -/
def Accepted (t : Trace Call Call.Answer) : Prop := ⟨.command .close, none⟩ ∈ t

/-- The body is sent only when these recipients have been accepted. -/
def WritesAfter (rcpts : List Bytes) (t : Trace Call Call.Answer) (c : Call) : Prop :=
  c.isWrite = true → t.filterMap acceptedRcpt = rcpts

/-- The driver would have to send a password in cleartext: a configuration error. -/
def RefusesCleartext (cfg : SMTPConfig) (c : SMTPEndpoint × Trace Call Call.Answer) : Prop :=
  authConfigured cfg = true ∧ c.1.tls = .none ∧ ⟨.command (.hello (helo cfg)), none⟩ ∈ c.2

/-- A reply that rejects the message for good. -/
def RejectsBy (L : Libraries) (bad : Int → Prop) (err : CommandError) : Prop :=
  ∃ code msg, err.reply = some (code, msg) ∧
    (bad code ∨ code = 452 ∧ isTooManyRecipients L msg = true)

/-- A conversation that failed for good: by configuration, or by a reply in the
MAIL/RCPT/DATA phase. -/
def FailsForGood (L : Libraries) (cfg : SMTPConfig) (bad : Int → Prop)
    (c : SMTPEndpoint × Trace Call Call.Answer) : Prop :=
  RefusesCleartext cfg c ∨ ∃ e ∈ c.2, ∃ err, judgement e = some err ∧ RejectsBy L bad err

/-- A reply beyond the 5xx range in the MAIL/RCPT/DATA phase. -/
def RepliesBeyond (c : SMTPEndpoint × Trace Call Call.Answer) : Prop :=
  ∃ e ∈ c.2, ∃ err, judgement e = some err ∧ ∃ code msg, err.reply = some (code, msg) ∧ 600 ≤ code

/-! ## Commands in order -/

/-- A command that went through. -/
def done (c : Command) : Event Call Call.Answer := ⟨.command c, none⟩

theorem inOrder_none {mark : CommandError → SendError} {cs : List Command}
    {t : Trace Call Call.Answer} (h : (inOrder mark cs).Ran t none) : t = cs.map done := by
  induction cs generalizing t with
  | nil => exact (Prog.ran_pure.mp h).1
  | cons c cs ih =>
    obtain ⟨a, t₂, rfl, hrest⟩ := Prog.ran_call.mp h
    cases a with
    | some err => cases (Prog.ran_pure.mp hrest).2
    | none =>
      rw [ih hrest]
      rfl

theorem inOrder_some {mark : CommandError → SendError} {cs : List Command}
    {t : Trace Call Call.Answer} {x : SendError} (h : (inOrder mark cs).Ran t (some x)) :
    ∃ before c after err, cs = before ++ c :: after ∧
      t = before.map done ++ [⟨.command c, some err⟩] ∧ x = mark err := by
  induction cs generalizing t with
  | nil => cases (Prog.ran_pure.mp h).2
  | cons c cs ih =>
    obtain ⟨a, t₂, rfl, hrest⟩ := Prog.ran_call.mp h
    cases a with
    | some err =>
      obtain ⟨rfl, hx⟩ := Prog.ran_pure.mp hrest
      exact ⟨[], c, cs, err, rfl, rfl, Option.some.inj hx⟩
    | none =>
      obtain ⟨before, c', after, err, rfl, rfl, rfl⟩ := ih hrest
      exact ⟨c :: before, c', after, err, rfl, rfl, rfl⟩

theorem inOrder_only {S : Call → Prop} {mark : CommandError → SendError} {cs : List Command}
    (h : ∀ c ∈ cs, S (.command c)) : (inOrder mark cs).Only S := by
  induction cs with
  | nil => exact Prog.only_pure
  | cons c cs ih =>
    refine Prog.Only.call (h c List.mem_cons_self) fun a => ?_
    cases a with
    | some err => exact Prog.only_pure
    | none => exact ih fun c hc => h c (List.mem_cons_of_mem _ hc)

theorem andThen_only {S : Call → Prop} {first second : Talk (Option SendError)}
    (hfirst : first.Only S) (hsecond : second.Only S) : (andThen first second).Only S := by
  refine Prog.Only.bind hfirst fun a => ?_
  cases a with
  | some err => exact Prog.only_pure
  | none => exact hsecond

/-- The first part failed, or it went through and the second came to the result. -/
theorem andThen_ran {first second : Talk (Option SendError)} {t : Trace Call Call.Answer}
    {res : Option SendError} (h : (andThen first second).Ran t res) :
    (∃ err, first.Ran t (some err) ∧ res = some err) ∨
      ∃ t₁ t₂, t = t₁ ++ t₂ ∧ first.Ran t₁ none ∧ second.Ran t₂ res := by
  obtain ⟨t₁, a, t₂, rfl, hfirst, hrest⟩ := Prog.ran_bind.mp h
  cases a with
  | some err =>
    obtain ⟨rfl, rfl⟩ := Prog.ran_pure.mp hrest
    rw [List.append_nil]
    exact .inl ⟨err, hfirst, rfl⟩
  | none => exact .inr ⟨t₁, t₂, rfl, hfirst, hrest⟩

/-! ## The phases of a conversation -/

/-- Calls before and after the relay judges the message, but for the dial. -/
def Call.Aside : Call → Prop
  | .command (.dial _) => False
  | .command c => c.judges = false
  | _ => True

section Phases
variable {L : Libraries} {cfg : SMTPConfig} {ep : SMTPEndpoint} {envelopeFrom body : Bytes}
  {rcpts : List Bytes} {t : Trace Call Call.Answer} {res : Option SendError}

theorem startTLS_only : (startTLS ep).Only Call.Aside := by
  unfold startTLS
  split
  · refine Prog.Only.call trivial fun offered => ?_
    cases offered with
    | false => exact Prog.only_pure
    | true => exact inOrder_only (by simp [Call.Aside, Command.judges])
  · exact Prog.only_pure

theorem authenticate_only : (authenticate L cfg ep).Only Call.Aside := by
  unfold authenticate
  split
  · split
    · exact Prog.only_pure
    · split <;> first
        | exact inOrder_only (by simp [Call.Aside, Command.judges])
        | exact Prog.only_pure
  · exact Prog.only_pure

theorem handshake_only : (handshake L cfg ep).Only Call.Aside :=
  andThen_only (inOrder_only (by simp [Call.Aside, Command.judges]))
    (andThen_only startTLS_only (andThen_only authenticate_only
      (inOrder_only (by simp [Call.Aside, Command.judges]))))

/-- A failure that is neither a judgement nor one of configuration. -/
def PlainFailure (res : Option SendError) : Prop := ∀ x, res = some x → ∃ err, x = .plain err

theorem inOrder_plain (cs : List Command) : (inOrder .plain cs).Returns PlainFailure := by
  induction cs with
  | nil => exact nofun
  | cons c cs ih =>
    refine Prog.Returns.bind fun a => ?_
    cases a with
    | some err =>
      rintro x ⟨⟩
      exact ⟨err, rfl⟩
    | none => exact ih

theorem andThen_plain {first second : Talk (Option SendError)} (hfirst : first.Returns PlainFailure)
    (hsecond : second.Returns PlainFailure) : (andThen first second).Returns PlainFailure := by
  refine hfirst.seq fun a ha => ?_
  cases a with
  | some err => exact ha
  | none => exact hsecond

theorem startTLS_plain : (startTLS ep).Returns PlainFailure := by
  unfold startTLS
  split
  · refine Prog.Returns.bind fun offered => ?_
    cases offered with
    | false =>
      rintro x ⟨⟩
      exact ⟨_, rfl⟩
    | true => exact inOrder_plain _
  · exact nofun

/-- A conversation would need a password over cleartext. -/
def Cleartext (cfg : SMTPConfig) (ep : SMTPEndpoint) : Prop :=
  authConfigured cfg = true ∧ ep.tls = .none

theorem authenticate_plain (hsafe : ¬ Cleartext cfg ep) :
    (authenticate L cfg ep).Returns PlainFailure := by
  unfold authenticate
  split
  · rename_i hauth
    rw [if_neg fun htls => hsafe ⟨hauth, htls⟩]
    split <;> first
      | exact inOrder_plain _
      | exact fun x hx => ⟨_, (Option.some.inj hx).symm⟩
  · exact nofun

theorem handshake_plain (hsafe : ¬ Cleartext cfg ep) :
    (handshake L cfg ep).Returns PlainFailure :=
  andThen_plain (inOrder_plain _)
    (andThen_plain startTLS_plain (andThen_plain (authenticate_plain hsafe) (inOrder_plain _)))

/-- Over cleartext the handshake fails, and after HELO it does so by configuration. -/
theorem handshake_cleartext (hclear : Cleartext cfg ep) (h : (handshake L cfg ep).Ran t res) :
    (∃ err, t = [⟨.command (.hello (helo cfg)), some err⟩] ∧ res = some (.plain err)) ∨
      ∃ text, t = [done (.hello (helo cfg))] ∧ res = some (.config text) := by
  obtain ⟨hauth, htls⟩ := hclear
  have hskip : ∀ s r, (startTLS ep).Ran s r → s = [] ∧ r = none := by
    intro s r hr
    rw [startTLS, if_neg (by rw [htls]; decide)] at hr
    exact Prog.ran_pure.mp hr
  have hconfig : ∀ s r, (authenticate L cfg ep).Ran s r →
      s = [] ∧ ∃ text, r = some (.config text) := by
    intro s r hr
    rw [authenticate, if_pos hauth, if_pos htls] at hr
    obtain ⟨rfl, rfl⟩ := Prog.ran_pure.mp hr
    exact ⟨rfl, _, rfl⟩
  rcases andThen_ran h with ⟨x, hhello, rfl⟩ | ⟨t₁, t₂, rfl, hhello, h₁⟩
  · obtain ⟨before, c, after, err, hcs, rfl, rfl⟩ := inOrder_some hhello
    obtain ⟨rfl, rfl, rfl⟩ : before = [] ∧ c = .hello (helo cfg) ∧ after = [] := by
      cases before with
      | nil =>
        obtain ⟨hc, hafter⟩ := List.cons.inj hcs
        exact ⟨rfl, hc.symm, hafter.symm⟩
      | cons c' before => simp at hcs
    exact .inl ⟨err, rfl, rfl⟩
  · rcases andThen_ran h₁ with ⟨x, htlsran, rfl⟩ | ⟨t₃, t₄, rfl, htlsran, h₂⟩
    · cases (hskip _ _ htlsran).2
    · obtain ⟨rfl, -⟩ := hskip _ _ htlsran
      rw [inOrder_none hhello]
      rcases andThen_ran h₂ with ⟨x, hran, rfl⟩ | ⟨t₅, t₆, rfl, hran, -⟩
      · obtain ⟨rfl, text, hx⟩ := hconfig _ _ hran
        exact .inr ⟨text, rfl, hx⟩
      · obtain ⟨-, text, hx⟩ := hconfig _ _ hran
        cases hx

end Phases

/-! ## The MAIL/RCPT/DATA phase -/

theorem inOrder_calls {mark : CommandError → SendError} {cs : List Command}
    {t : Trace Call Call.Answer} {res : Option SendError} (h : (inOrder mark cs).Ran t res) :
    t.map Sigma.fst <+: cs.map Call.command := by
  cases res with
  | none =>
    rw [inOrder_none h, List.map_map]
    exact List.prefix_refl _
  | some x =>
    obtain ⟨before, c, after, err, rfl, rfl, -⟩ := inOrder_some h
    refine ⟨after.map Call.command, ?_⟩
    simp [done, Function.comp_def]

/-- What the relay is asked, in order. -/
def script (envelopeFrom : Bytes) (rcpts : List Bytes) (body : Bytes) : List Command :=
  .mail envelopeFrom :: rcpts.map .rcpt ++ [.data, .write body, .close]

section Transfer
variable {envelopeFrom body : Bytes} {rcpts : List Bytes} {t : Trace Call Call.Answer}
  {res : Option SendError}

theorem judges_of_mem_script {c : Command} (h : c ∈ script envelopeFrom rcpts body) :
    c.judges = true := by
  simp only [script, List.cons_append, List.mem_cons, List.mem_append, List.mem_map,
    List.not_mem_nil, or_false] at h
  rcases h with rfl | ⟨r, -, rfl⟩ | rfl | rfl | rfl <;> rfl

theorem transfer_mails (h : (transfer envelopeFrom rcpts body).Ran t res) :
    t.countP (fun e => e.1.isMail) ≤ 1 := by
  have hle := (inOrder_calls h).sublist.countP_le (p := Call.isMail)
  have hscript : ((script envelopeFrom rcpts body).map Call.command).countP Call.isMail = 1 := by
    have hrcpts : (rcpts.map fun r => Call.command (.rcpt r)).countP Call.isMail = 0 :=
      List.countP_eq_zero.mpr (by simp [Call.isMail])
    simp [script, List.countP_cons, Call.isMail, List.map_map, Function.comp_def, hrcpts]
  rw [List.countP_map] at hle
  exact hle.trans_eq hscript

/-- The recipients that are left are asked for before the body is sent. -/
theorem transfer_keeps {rest : List Bytes} (h : t.filterMap acceptedRcpt ++ rest = rcpts) :
    (inOrder .delivery (rest.map .rcpt ++ [.data, .write body, .close])).Keeps (fun _ => True)
      (WritesAfter rcpts) (fun _ _ => True) t := by
  induction rest generalizing t with
  | nil =>
    rw [List.append_nil] at h
    refine ⟨nofun, fun a _ => ?_⟩
    cases a with
    | some err => trivial
    | none =>
      refine ⟨fun _ => ?_, fun a _ => ?_⟩
      · rw [List.filterMap_append, h]
        exact List.append_nil rcpts
      · cases a with
        | some err => trivial
        | none => exact ⟨nofun, fun a _ => by cases a <;> trivial⟩
  | cons r rest ih =>
    refine ⟨nofun, fun a _ => ?_⟩
    cases a with
    | some err => trivial
    | none => exact ih (by simpa [acceptedRcpt] using h)

theorem transfer_accepted (h : (transfer envelopeFrom rcpts body).Ran t res) :
    res = none ↔ Accepted t := by
  constructor
  · rintro rfl
    rw [inOrder_none h]
    exact List.mem_map_of_mem (f := done) (by simp : Command.close ∈ _)
  · intro hmem
    cases res with
    | none => rfl
    | some x =>
      obtain ⟨before, c, after, err, hscript, rfl, -⟩ := inOrder_some h
      have hclose : Command.close ∈ before := by
        rcases List.mem_append.mp hmem with hdone | hlast
        · obtain ⟨c', hc', he⟩ := List.mem_map.mp hdone
          have hcall := congrArg Sigma.fst he
          exact Call.command.inj hcall ▸ hc'
        · simp at hlast
      -- but `close` is the last command there is
      have hfirst : before ⊆ (before ++ c :: after).dropLast := by
        rw [List.dropLast_append_cons]
        exact List.subset_append_left _ _
      rw [← hscript, List.dropLast_append_cons] at hfirst
      simpa using hfirst hclose

/-- A phase that fails does so by the judgement of its last command. -/
theorem transfer_judged (h : (transfer envelopeFrom rcpts body).Ran t res) :
    (res = none ∧ ∀ e ∈ t, judgement e = none) ∨
      ∃ err, res = some (.delivery err) ∧ (∃ e ∈ t, judgement e = some err) ∧
        ∀ e ∈ t, ∀ err', judgement e = some err' → err' = err := by
  have hdone : ∀ cs : List Command, ∀ e ∈ cs.map done, judgement e = none := by
    intro cs e he
    obtain ⟨c, -, rfl⟩ := List.mem_map.mp he
    rfl
  cases res with
  | none =>
    rw [inOrder_none h]
    exact .inl ⟨rfl, hdone _⟩
  | some x =>
    obtain ⟨before, c, after, err, hscript, rfl, rfl⟩ := inOrder_some h
    have hmem : c ∈ script envelopeFrom rcpts body := by
      rw [script, hscript]
      simp
    have hc := judges_of_mem_script hmem
    refine .inr ⟨err, rfl, ⟨_, List.mem_append_right _ List.mem_cons_self, ?_⟩, ?_⟩
    · simp [judgement, hc]
    · intro e he err' hj
      rcases List.mem_append.mp he with hold | hlast
      · rw [hdone before e hold] at hj
        cases hj
      · rw [List.mem_singleton.mp hlast] at hj
        simpa [judgement, hc, eq_comm] using hj

end Transfer

/-! ## One endpoint -/

/-- What opens a conversation tells the relay nothing, its greeting neither. -/
theorem opening_aside {host : Bytes} {t : Trace Call Call.Answer} {res : Option SendError}
    (h : (inOrder .plain [.setDeadline, .newClient host]).Ran t res) :
    ∀ e ∈ t, e.1.Aside ∧ ∀ name, e.1 ≠ .command (.hello name) := by
  have honly : (inOrder .plain [.setDeadline, .newClient host]).Only
      fun c => c.Aside ∧ ∀ name, c ≠ .command (.hello name) :=
    inOrder_only (by simp [Call.Aside, Command.judges])
  exact h.only honly

/-- How a conversation can go: it fails before the relay judges the message, or the
MAIL/RCPT/DATA phase comes to the result. -/
theorem sendVia_ran {L : Libraries} {cfg : SMTPConfig} {ep : SMTPEndpoint}
    {envelopeFrom body : Bytes} {rcpts : List Bytes} {t : Trace Call Call.Answer}
    {res : Option SendError} (h : (sendVia L cfg ep envelopeFrom rcpts body).Ran t res) :
    ∃ a pre mid post, t = ⟨.command (.dial ep), a⟩ :: (pre ++ mid ++ post) ∧
      (∀ e ∈ pre ++ post, e.1.Aside) ∧
      ((mid = [] ∧ ((∃ err, res = some (.plain err)) ∧
            (Cleartext cfg ep → done (.hello (helo cfg)) ∉ pre ++ post) ∨
          (∃ text, res = some (.config text)) ∧ Cleartext cfg ep ∧
            done (.hello (helo cfg)) ∈ pre)) ∨
        ¬ Cleartext cfg ep ∧ (transfer envelopeFrom rcpts body).Ran mid res) := by
  obtain ⟨a, t₁, rfl, h₁⟩ := Prog.ran_call.mp h
  cases a with
  | some err =>
    obtain ⟨rfl, rfl⟩ := Prog.ran_pure.mp h₁
    exact ⟨some err, [], [], [], rfl, nofun, .inl ⟨rfl, .inl ⟨⟨err, rfl⟩, fun _ => nofun⟩⟩⟩
  | none =>
    obtain ⟨t₂, res', t₃, rfl, h₂, h₃⟩ := Prog.ran_bind.mp h₁
    obtain ⟨⟨⟩, t₅, rfl, h₄⟩ := Prog.ran_call.mp h₃
    obtain ⟨rfl, rfl⟩ := Prog.ran_pure.mp h₄
    rcases andThen_ran h₂ with ⟨x, hopen, rfl⟩ | ⟨t₆, t₇, rfl, hopen, h₅⟩
    · obtain ⟨err, rfl⟩ := hopen.returns (inOrder_plain _) x rfl
      refine ⟨none, t₂, [], [⟨.closeConn, ()⟩], by simp, fun e he => ?_,
        .inl ⟨rfl, .inl ⟨⟨err, rfl⟩, fun _ hmem => ?_⟩⟩⟩
      · rcases List.mem_append.mp he with he | he
        · exact (opening_aside hopen e he).1
        · rw [List.mem_singleton.mp he]
          trivial
      · rcases List.mem_append.mp hmem with hmem | hmem
        · exact (opening_aside hopen _ hmem).2 _ rfl
        · cases List.mem_singleton.mp hmem
    · obtain ⟨t₈, res'', t₉, rfl, h₆, h₇⟩ := Prog.ran_bind.mp h₅
      obtain ⟨⟨⟩, t₁₁, rfl, h₈⟩ := Prog.ran_call.mp h₇
      obtain ⟨rfl, rfl⟩ := Prog.ran_pure.mp h₈
      have haside : ∀ th, (∀ e ∈ th, Call.Aside e.1) →
          ∀ e ∈ (t₆ ++ th) ++ [⟨.quit, ()⟩, ⟨.closeConn, ()⟩], Call.Aside e.1 := by
        intro th hth e he
        simp only [List.append_assoc, List.mem_append, List.mem_cons, List.not_mem_nil,
          or_false] at he
        rcases he with he | he | rfl | rfl
        · exact (opening_aside hopen e he).1
        · exact hth e he
        · trivial
        · trivial
      rcases andThen_ran h₆ with ⟨x, hshake, rfl⟩ | ⟨t₁₂, t₁₃, rfl, hshake, htransfer⟩
      · refine ⟨none, t₆ ++ t₈, [], [⟨.quit, ()⟩, ⟨.closeConn, ()⟩], by simp,
          haside _ (hshake.only handshake_only), .inl ⟨rfl, ?_⟩⟩
        by_cases hclear : Cleartext cfg ep
        · rcases handshake_cleartext hclear hshake with ⟨err, rfl, hx⟩ | ⟨text, rfl, hx⟩
          · refine .inl ⟨⟨err, hx⟩, fun _ => ?_⟩
            rw [inOrder_none hopen]
            simp [done]
          · exact .inr ⟨⟨text, hx⟩, hclear, by simp⟩
        · obtain ⟨err, rfl⟩ := hshake.returns (handshake_plain hclear) x rfl
          exact .inl ⟨⟨err, rfl⟩, fun hc => absurd hc hclear⟩
      · refine ⟨none, t₆ ++ t₁₂, t₁₃, [⟨.quit, ()⟩, ⟨.closeConn, ()⟩], by simp,
          haside _ (hshake.only handshake_only), .inr ⟨fun hclear => ?_, htransfer⟩⟩
        rcases handshake_cleartext hclear hshake with ⟨err, -, hx⟩ | ⟨text, -, hx⟩ <;> cases hx

/-- An event that tells nothing about the message. -/
structure Mute (e : Event Call Call.Answer) : Prop where
  mail : e.1.isMail = false
  write : e.1.isWrite = false
  rcpt : acceptedRcpt e = none
  judgement : judgement e = none
  close : e ≠ done .close

theorem mute_dial (ep : SMTPEndpoint) (a : Option CommandError) :
    Mute ⟨.command (.dial ep), a⟩ := by
  refine ⟨rfl, rfl, ?_, ?_, fun he => ?_⟩
  · cases a <;> rfl
  · cases a <;> rfl
  · cases congrArg Sigma.fst he

/-- What is aside is mute, and no dial. -/
theorem Call.Aside.spec {e : Event Call Call.Answer} (h : e.1.Aside) :
    dialOf e = none ∧ Mute e := by
  obtain ⟨c, a⟩ := e
  cases c with
  | command c =>
    cases c <;> first
      | exact h.elim
      | exact Bool.noConfusion h
      | exact ⟨rfl, rfl, rfl, rfl, by cases a <;> rfl, by simp [done]⟩
  | _ => exact ⟨rfl, rfl, rfl, rfl, rfl, by simp [done]⟩

section Framed
variable {pre mid post : Trace Call Call.Answer} (hpre : ∀ e ∈ pre, Mute e)
  (hpost : ∀ e ∈ post, Mute e)
include hpre hpost

theorem mem_framed {e : Event Call Call.Answer} (he : e ∈ pre ++ mid ++ post) :
    e ∈ mid ∨ Mute e := by
  rcases List.mem_append.mp he with he | he
  · exact (List.mem_append.mp he).symm.imp_right (hpre e)
  · exact .inr (hpost e he)

theorem mails_framed : (pre ++ mid ++ post).countP (fun e => e.1.isMail) =
    mid.countP fun e => e.1.isMail := by
  have hzero : ∀ l : Trace Call Call.Answer, (∀ e ∈ l, Mute e) →
      l.countP (fun e => e.1.isMail) = 0 :=
    fun l hl => List.countP_eq_zero.mpr fun e he => by simp [(hl e he).mail]
  rw [List.countP_append, List.countP_append, hzero pre hpre, hzero post hpost, Nat.zero_add,
    Nat.add_zero]

theorem accepted_framed : Accepted (pre ++ mid ++ post) ↔ Accepted mid := by
  constructor
  · intro hmem
    exact (mem_framed hpre hpost hmem).resolve_right fun hmute => hmute.close rfl
  · intro hmem
    exact List.mem_append_left _ (List.mem_append_right _ hmem)

theorem judgement_framed {L : Libraries} {bad : Int → Prop} :
    (∃ e ∈ pre ++ mid ++ post, ∃ err, judgement e = some err ∧ RejectsBy L bad err) ↔
      ∃ e ∈ mid, ∃ err, judgement e = some err ∧ RejectsBy L bad err := by
  constructor
  · rintro ⟨e, he, err, hj, hrejects⟩
    rcases mem_framed hpre hpost he with he | hmute
    · exact ⟨e, he, err, hj, hrejects⟩
    · rw [hmute.judgement] at hj
      cases hj
  · rintro ⟨e, he, h⟩
    exact ⟨e, List.mem_append_left _ (List.mem_append_right _ he), h⟩

end Framed

/-- What a reply means for the send, as `isTransient` has it. -/
theorem isTransient_delivery {L : Libraries} {err : CommandError} :
    isTransient L (.delivery err) = false ↔ RejectsBy L (500 ≤ ·) err := by
  cases hreply : err.reply with
  | none => simp [isTransient, RejectsBy, hreply]
  | some r =>
    obtain ⟨code, msg⟩ := r
    simp only [isTransient, RejectsBy, hreply, Option.some.injEq, Prod.mk.injEq]
    split
    · rename_i htoo
      exact ⟨fun _ => ⟨code, msg, ⟨rfl, rfl⟩, .inr htoo⟩, fun _ => rfl⟩
    · rename_i htoo
      rw [decide_eq_false_iff_not, not_lt]
      constructor
      · exact fun hcode => ⟨code, msg, ⟨rfl, rfl⟩, .inl hcode⟩
      · rintro ⟨code', msg', ⟨rfl, rfl⟩, hcode | htoo'⟩
        · exact hcode
        · exact absurd htoo' htoo

/-- What one conversation can come to. -/
structure Talked (L : Libraries) (cfg : SMTPConfig) (rcpts : List Bytes) (ep : SMTPEndpoint)
    (t : Trace Call Call.Answer) (res : Option SendError) : Prop where
  dialled : ∃ a rest, t = ⟨.command (.dial ep), a⟩ :: rest ∧ ∀ e ∈ rest, dialOf e = none
  mails : t.countP (fun e => e.1.isMail) ≤ 1
  mailed : t.countP (fun e => e.1.isMail) ≠ 0 → res = none ∨ ∃ err, res = some (.delivery err)
  written : ∀ earlier e later, t = earlier ++ e :: later → e.1.isWrite = true →
    earlier.filterMap acceptedRcpt = rcpts
  accepted : res = none ↔ Accepted t
  judged : ∀ e ∈ t, ∀ err, judgement e = some err → res = some (.delivery err)
  forGood : (∃ x, res = some x ∧ isTransient L x = false) ↔
    FailsForGood L cfg (500 ≤ ·) (ep, t)

section Talked
variable {L : Libraries} {cfg : SMTPConfig} {ep : SMTPEndpoint} {envelopeFrom body : Bytes}
  {rcpts : List Bytes} {res : Option SendError}

/-- A conversation by what the relay judges in it. -/
theorem Talked.of_middle {a : Option CommandError} {pre mid post : Trace Call Call.Answer}
    (haside : ∀ e ∈ pre ++ post, e.1.Aside) (hdials : ∀ e ∈ mid, dialOf e = none)
    (hmails : mid.countP (fun e => e.1.isMail) ≤ 1)
    (hmailed : mid ≠ [] → res = none ∨ ∃ err, res = some (.delivery err))
    (hwritten : Meets (fun _ => True) (WritesAfter rcpts)
      (⟨.command (.dial ep), a⟩ :: (pre ++ mid ++ post)))
    (haccepted : res = none ↔ Accepted mid)
    (hjudged : ∀ e ∈ mid, ∀ err, judgement e = some err → res = some (.delivery err))
    (hgood : (∃ x, res = some x ∧ isTransient L x = false) ↔
      RefusesCleartext cfg (ep, ⟨.command (.dial ep), a⟩ :: (pre ++ mid ++ post)) ∨
        ∃ e ∈ mid, ∃ err, judgement e = some err ∧ RejectsBy L (500 ≤ ·) err) :
    Talked L cfg rcpts ep (⟨.command (.dial ep), a⟩ :: (pre ++ mid ++ post)) res := by
  have hpre : ∀ e ∈ (⟨.command (.dial ep), a⟩ :: pre : Trace Call Call.Answer), Mute e :=
    List.forall_mem_cons.mpr
      ⟨mute_dial ep a, fun e he => (haside e (List.mem_append_left _ he)).spec.2⟩
  have hpost : ∀ e ∈ post, Mute e := fun e he => (haside e (List.mem_append_right _ he)).spec.2
  have hframed : (⟨.command (.dial ep), a⟩ :: (pre ++ mid ++ post) : Trace Call Call.Answer) =
      (⟨.command (.dial ep), a⟩ :: pre) ++ mid ++ post := rfl
  refine ⟨⟨a, _, rfl, fun e he => ?_⟩, ?_, fun hmail => hmailed ?_,
    fun earlier e later ht he => (hwritten earlier later e ht).1 he, ?_, fun e he err hj => ?_, ?_⟩
  · simp only [List.mem_append] at he
    rcases he with (he | he) | he
    · exact (haside e (List.mem_append_left _ he)).spec.1
    · exact hdials e he
    · exact (haside e (List.mem_append_right _ he)).spec.1
  · rwa [hframed, mails_framed hpre hpost]
  · rintro rfl
    rw [hframed, mails_framed hpre hpost] at hmail
    exact hmail rfl
  · rw [haccepted, hframed, accepted_framed hpre hpost]
  · rcases mem_framed hpre hpost (hframed ▸ he) with hmid | hmute
    · exact hjudged e hmid err hj
    · rw [hmute.judgement] at hj
      cases hj
  · rw [hgood, FailsForGood, hframed, judgement_framed hpre hpost]

/-- A conversation that ends before the relay judges the message fails for good only by
configuration. -/
theorem refusesCleartext_iff {a : Option CommandError} {rest : Trace Call Call.Answer}
    (hres : (∃ err, res = some (.plain err)) ∧
        (Cleartext cfg ep → done (.hello (helo cfg)) ∉ rest) ∨
      (∃ text, res = some (.config text)) ∧ Cleartext cfg ep ∧ done (.hello (helo cfg)) ∈ rest) :
    (∃ x, res = some x ∧ isTransient L x = false) ↔
      RefusesCleartext cfg (ep, ⟨.command (.dial ep), a⟩ :: rest) := by
  rcases hres with ⟨⟨err, rfl⟩, hhello⟩ | ⟨⟨text, rfl⟩, hclear, hmem⟩
  · refine iff_of_false ?_ ?_
    · rintro ⟨x, hx, htransient⟩
      rw [← Option.some.inj hx] at htransient
      cases htransient
    · rintro ⟨hauth, htls, hmem⟩
      rcases List.mem_cons.mp hmem with he | hmem
      · cases congrArg Sigma.fst he
      · exact hhello ⟨hauth, htls⟩ hmem
  · exact iff_of_true ⟨_, rfl, rfl⟩ ⟨hclear.1, hclear.2, List.mem_cons_of_mem _ hmem⟩

/-- The relay rejected the message for good where its judgement says so. -/
theorem transfer_forGood {mid : Trace Call Call.Answer}
    (h : (transfer envelopeFrom rcpts body).Ran mid res) :
    (∃ x, res = some x ∧ isTransient L x = false) ↔
      ∃ e ∈ mid, ∃ err, judgement e = some err ∧ RejectsBy L (500 ≤ ·) err := by
  rcases transfer_judged h with ⟨rfl, hnone⟩ | ⟨err, rfl, ⟨e, he, hj⟩, huniq⟩
  · constructor
    · rintro ⟨x, hx, -⟩
      cases hx
    · rintro ⟨e, he, err, hj, -⟩
      rw [hnone e he] at hj
      cases hj
  · constructor
    · rintro ⟨x, hx, htransient⟩
      obtain rfl := Option.some.inj hx
      exact ⟨e, he, err, hj, isTransient_delivery.mp htransient⟩
    · rintro ⟨e', he', err', hj', hrejects⟩
      obtain rfl := huniq e' he' err' hj'
      exact ⟨_, rfl, isTransient_delivery.mpr hrejects⟩

theorem transfer_dials {mid : Trace Call Call.Answer}
    (h : (transfer envelopeFrom rcpts body).Ran mid res) : ∀ e ∈ mid, dialOf e = none := by
  have hscript : (transfer envelopeFrom rcpts body).Only fun call =>
      ∃ c ∈ script envelopeFrom rcpts body, call = .command c :=
    inOrder_only fun c hc => ⟨c, hc, rfl⟩
  intro e he
  obtain ⟨c, hc, hcall⟩ := h.only hscript e he
  have hjudges := judges_of_mem_script hc
  obtain ⟨c', a'⟩ := e
  obtain rfl : c' = .command c := hcall
  cases c <;> first | rfl | cases hjudges

end Talked

theorem sendVia_keeps (L : Libraries) (cfg : SMTPConfig) (ep : SMTPEndpoint)
    (envelopeFrom : Bytes) (rcpts : List Bytes) (body : Bytes) :
    (sendVia L cfg ep envelopeFrom rcpts body).Keeps (fun _ => True) (WritesAfter rcpts)
      (fun _ _ => True) [] := by
  -- nothing that is aside sends the body or asks for a recipient
  have haside : ∀ {p : Talk (Option SendError)} {t : Trace Call Call.Answer}, p.Only Call.Aside →
      t.filterMap acceptedRcpt = [] → p.Keeps (fun _ => True) (WritesAfter rcpts)
        (fun t' _ => t'.filterMap acceptedRcpt = []) t := by
    intro p t hp ht
    refine hp.keeps_invariant (fun t c _ hc hwrite => ?_) (fun t e ht he => ?_) ht
    · cases c with
      | command c =>
        cases c <;> first
          | exact hc.elim
          | exact Bool.noConfusion hwrite
          | exact Bool.noConfusion hc
      | _ => cases hwrite
    · simp [ht, he.spec.2.rcpt]
  refine Prog.keeps_bind.mpr ⟨nofun, fun a _ => ?_⟩
  cases a with
  | some err => trivial
  | none =>
    refine Prog.keeps_bind.mpr (Prog.Keeps.mono (Q := fun _ _ => True) ?_
      fun _ _ _ => ⟨nofun, fun _ _ => trivial⟩)
    have hopen : (inOrder .plain [.setDeadline, .newClient ep.host]).Only Call.Aside :=
      inOrder_only (by simp [Call.Aside, Command.judges])
    refine Prog.keeps_bind.mpr ((haside hopen rfl).mono fun t' res ht' => ?_)
    cases res with
    | some err => trivial
    | none =>
      refine Prog.keeps_bind.mpr (Prog.Keeps.mono (Q := fun _ _ => True) ?_
        fun _ _ _ => ⟨nofun, fun _ _ => trivial⟩)
      refine Prog.keeps_bind.mpr ((haside handshake_only ht').mono fun t'' res ht'' => ?_)
      cases res with
      | some err => trivial
      | none =>
        refine ⟨nofun, fun a _ => ?_⟩
        cases a with
        | some err => trivial
        | none =>
          refine transfer_keeps ?_
          rw [List.filterMap_append, ht'']
          rfl

theorem sendVia_talked {L : Libraries} {cfg : SMTPConfig} {ep : SMTPEndpoint}
    {envelopeFrom body : Bytes} {rcpts : List Bytes} {t : Trace Call Call.Answer}
    {res : Option SendError} (h : (sendVia L cfg ep envelopeFrom rcpts body).Ran t res) :
    Talked L cfg rcpts ep t res := by
  have hwritten := (h.keeps (sendVia_keeps L cfg ep envelopeFrom rcpts body) fun _ _ => trivial).1
  obtain ⟨a, pre, mid, post, rfl, haside, ⟨rfl, hres⟩ | ⟨hclear, htransfer⟩⟩ := sendVia_ran h
  · have hgood := refusesCleartext_iff (L := L) (a := a) (hres.imp_right fun h =>
      ⟨h.1, h.2.1, List.mem_append_left post h.2.2⟩)
    refine .of_middle haside nofun (Nat.zero_le 1) (absurd rfl) hwritten ?_ nofun ?_
    · rcases hres with ⟨⟨err, rfl⟩, -⟩ | ⟨⟨text, rfl⟩, -⟩ <;> simp [Accepted]
    · rw [hgood, List.append_nil]
      simp
  · refine .of_middle haside (transfer_dials htransfer) (transfer_mails htransfer) (fun _ => ?_)
      hwritten (transfer_accepted htransfer) (fun e he err hj => ?_) ?_
    · rcases transfer_judged htransfer with ⟨rfl, -⟩ | ⟨err, rfl, -⟩
      · exact .inl rfl
      · exact .inr ⟨err, rfl⟩
    · rcases transfer_judged htransfer with ⟨rfl, hnone⟩ | ⟨err', rfl, -, huniq⟩
      · rw [hnone e he] at hj
        cases hj
      · rw [huniq e he err hj]
    · rw [transfer_forGood htransfer, or_iff_right fun hr => hclear ⟨hr.1, hr.2.1⟩]

/-! ## The loop -/

theorem conversations_of_aside {t t' : Trace Call Call.Answer} (h : ∀ e ∈ t, dialOf e = none) :
    conversations (t ++ t') = conversations t' := by
  induction t with
  | nil => rfl
  | cons e t ih =>
    rw [List.cons_append, conversations, h e List.mem_cons_self]
    exact ih fun e he => h e (List.mem_cons_of_mem _ he)

/-- A conversation, and then others. -/
theorem conversations_append {e : Event Call Call.Answer} {ep : SMTPEndpoint}
    {rest t' : Trace Call Call.Answer} (he : dialOf e = some ep)
    (hrest : ∀ e ∈ rest, dialOf e = none) (ht' : ∀ e ∈ t'.head?, dialOf e ≠ none) :
    conversations (e :: rest ++ t') = (ep, e :: rest) :: conversations t' := by
  have htake : (rest ++ t').takeWhile (fun e => (dialOf e).isNone) = rest := by
    rw [List.takeWhile_append_of_pos fun e he => by simp [hrest e he]]
    cases t' with
    | nil => simp
    | cons e' t' =>
      rw [List.takeWhile_cons_of_neg, List.append_nil]
      simpa using ht' e' rfl
  rw [List.cons_append, conversations, he]
  simp only [htake, conversations_of_aside hrest]

/-- What the loop over the endpoints can come to. -/
structure Tried (L : Libraries) (cfg : SMTPConfig) (rcpts : List Bytes) (eps : List SMTPEndpoint)
    (transient : Bool) (t : Trace Call Call.Answer) (out : Option (Option SendError × Bool)) :
    Prop where
  head : ∀ e ∈ t.head?, dialOf e ≠ none
  contacted : (conversations t).map Prod.fst <+: eps
  mails : t.countP (fun e => e.1.isMail) ≤ 1
  written : ∀ c ∈ conversations t, ∀ earlier e later, c.2 = earlier ++ e :: later →
    e.1.isWrite = true → earlier.filterMap acceptedRcpt = rcpts
  accepted : out = none ↔ ∃ c ∈ (conversations t).getLast?, Accepted c.2
  judged : ∀ c ∈ conversations t, ∀ c' ∈ conversations t, ∀ e ∈ c.2, ∀ e' ∈ c'.2, ∀ err err',
    judgement e = some err → judgement e' = some err' → err = err'
  forGood : ∀ lastErr transient', out = some (lastErr, transient') →
    (transient' = false ↔ transient = false ∨
      ∃ c ∈ conversations t, FailsForGood L cfg (500 ≤ ·) c)

section Tried
variable {L : Libraries} {cfg : SMTPConfig} {rcpts : List Bytes} {ep : SMTPEndpoint}
  {eps : List SMTPEndpoint} {transient : Bool} {t t' : Trace Call Call.Answer}
  {res : Option SendError} {out : Option (Option SendError × Bool)}

theorem Talked.conversations (h : Talked L cfg rcpts ep t res)
    (ht' : ∀ e ∈ t'.head?, dialOf e ≠ none) :
    SMTP.conversations (t ++ t') = (ep, t) :: SMTP.conversations t' := by
  obtain ⟨a, rest, rfl, hrest⟩ := h.dialled
  exact conversations_append rfl hrest ht'

theorem Talked.head (h : Talked L cfg rcpts ep t res) : ∀ e ∈ (t ++ t').head?, dialOf e ≠ none := by
  obtain ⟨a, rest, rfl, -⟩ := h.dialled
  rintro e he
  obtain rfl : ⟨.command (.dial ep), a⟩ = e := by simpa using he
  simp [dialOf]

/-- The loop ends with this endpoint. -/
theorem Tried.last (h : Talked L cfg rcpts ep t res) (hnone : out = none ↔ res = none)
    (hsome : ∀ lastErr transient', out = some (lastErr, transient') →
      ∃ x, res = some x ∧ transient' = (transient && isTransient L x)) :
    Tried L cfg rcpts (ep :: eps) transient t out := by
  have hconv : conversations t = [(ep, t)] := by
    have happend : conversations (t ++ []) = _ := h.conversations nofun
    rwa [List.append_nil] at happend
  have hhead : ∀ e ∈ (t ++ []).head?, dialOf e ≠ none := h.head
  refine ⟨by rwa [List.append_nil] at hhead, ?_, h.mails, ?_, ?_, ?_, ?_⟩
  · rw [hconv]
    exact ⟨eps, rfl⟩
  · rw [hconv]
    intro c hc
    rw [List.mem_singleton.mp hc]
    exact h.written
  · rw [hconv, hnone, h.accepted]
    simp
  · rw [hconv]
    intro c hc c' hc' e he e' he' err err' hj hj'
    rw [List.mem_singleton.mp hc] at he
    rw [List.mem_singleton.mp hc'] at he'
    have hsame := (h.judged e he err hj).symm.trans (h.judged e' he' err' hj')
    exact SendError.delivery.inj (Option.some.inj hsame)
  · intro lastErr transient' hout
    obtain ⟨x, rfl, rfl⟩ := hsome lastErr transient' hout
    have hgood := h.forGood
    rw [hconv]
    simp only [List.mem_singleton, exists_eq_left, ← hgood, Option.some.injEq, exists_eq_left',
      Bool.and_eq_false_iff]

/-- The loop goes on after this endpoint, which was not given the MAIL command. -/
theorem Tried.next {x : SendError} (h : Talked L cfg rcpts ep t (some x))
    (hx : ∀ err, x ≠ .delivery err)
    (hnext : Tried L cfg rcpts eps (transient && isTransient L x) t' out) :
    Tried L cfg rcpts (ep :: eps) transient (t ++ t') out := by
  have hconv := h.conversations hnext.head
  have hmails : t.countP (fun e => e.1.isMail) = 0 := by
    by_contra hne
    rcases h.mailed hne with hnone | ⟨err, hsome⟩
    · cases hnone
    · exact hx err (Option.some.inj hsome)
  have hnot : ¬ Accepted t := fun hacc => by cases h.accepted.mpr hacc
  have hsilent : ∀ e ∈ t, ∀ err, judgement e ≠ some err := fun e he err hj =>
    hx err (Option.some.inj (h.judged e he err hj))
  refine ⟨h.head, ?_, ?_, ?_, ?_, ?_, ?_⟩
  · rw [hconv]
    obtain ⟨later, hlater⟩ := hnext.contacted
    exact ⟨later, by rw [← hlater]; rfl⟩
  · rw [List.countP_append, hmails, Nat.zero_add]
    exact hnext.mails
  · rw [hconv]
    intro c hc
    rcases List.mem_cons.mp hc with rfl | hc
    · exact h.written
    · exact hnext.written c hc
  · rw [hconv, hnext.accepted]
    cases conversations t' with
    | nil => simp [hnot]
    | cons c cs => rw [List.getLast?_cons_cons]
  · rw [hconv]
    intro c hc c' hc' e he e' he' err err' hj hj'
    rcases List.mem_cons.mp hc with rfl | hc
    · exact absurd hj (hsilent e he err)
    · rcases List.mem_cons.mp hc' with rfl | hc'
      · exact absurd hj' (hsilent e' he' err')
      · exact hnext.judged c hc c' hc' e he e' he' err err' hj hj'
  · intro lastErr transient' hout
    have hgood : isTransient L x = false ↔ FailsForGood L cfg (500 ≤ ·) (ep, t) := by
      rw [← h.forGood]
      simp
    rw [hconv, hnext.forGood lastErr transient' hout, Bool.and_eq_false_iff, hgood]
    simp only [List.mem_cons, exists_eq_or_imp, or_assoc]

end Tried

theorem tryEndpoints_tried {L : Libraries} {cfg : SMTPConfig} {envelopeFrom body : Bytes}
    {rcpts : List Bytes} {eps : List SMTPEndpoint} {lastErr : Option SendError} {transient : Bool}
    {t : Trace Call Call.Answer} {out : Option (Option SendError × Bool)}
    (h : (tryEndpoints L cfg envelopeFrom rcpts body eps lastErr transient).Ran t out) :
    Tried L cfg rcpts eps transient t out := by
  induction eps generalizing lastErr transient t with
  | nil =>
    obtain ⟨rfl, rfl⟩ := Prog.ran_pure.mp h
    refine ⟨nofun, List.nil_prefix, Nat.zero_le 1, nofun, by simp [conversations], nofun, ?_⟩
    intro lastErr' transient' hout
    obtain ⟨-, rfl⟩ := Prod.mk.inj (Option.some.inj hout)
    simp [conversations]
  | cons ep eps ih =>
    obtain ⟨t₁, res, t₂, rfl, hvia, hrest⟩ := Prog.ran_bind.mp h
    have htalked := sendVia_talked hvia
    cases res with
    | none =>
      obtain ⟨rfl, rfl⟩ := Prog.ran_pure.mp hrest
      rw [List.append_nil]
      exact .last htalked ⟨fun _ => rfl, fun _ => rfl⟩ nofun
    | some x =>
      cases x with
      | delivery err =>
        obtain ⟨rfl, rfl⟩ := Prog.ran_pure.mp hrest
        rw [List.append_nil]
        refine .last htalked (by simp) fun lastErr' transient' hout => ?_
        exact ⟨_, rfl, (Prod.mk.inj (Option.some.inj hout)).2.symm⟩
      | plain err => exact .next htalked nofun (ih hrest)
      | config text => exact .next htalked nofun (ih hrest)

/-- **Which failures for good are 5xx replies**: all, unless the one endpoint that judged the
message replied beyond that range, and no other failed by configuration. -/
theorem fails_5xx_iff {L : Libraries} {cfg : SMTPConfig}
    {cs : List (SMTPEndpoint × Trace Call Call.Answer)}
    (hjudged : ∀ c ∈ cs, ∀ c' ∈ cs, ∀ e ∈ c.2, ∀ e' ∈ c'.2, ∀ err err',
      judgement e = some err → judgement e' = some err' → err = err') :
    ((∃ c ∈ cs, FailsForGood L cfg (500 ≤ ·) c) ↔
      ∃ c ∈ cs, FailsForGood L cfg (fun code => 500 ≤ code ∧ code < 600) c) ↔
      (∃ c ∈ cs, RefusesCleartext cfg c) ∨ ∀ c ∈ cs, ¬ RepliesBeyond c := by
  constructor
  · intro hsame
    by_contra hnot
    obtain ⟨hsafe, hbeyond⟩ := not_or.mp hnot
    push Not at hbeyond
    obtain ⟨c, hc, e, he, err, hj, code, msg, hreply, hcode⟩ := hbeyond
    obtain ⟨c', hc', hclear | ⟨e', he', err', hj', code', msg', hreply', hcode'⟩⟩ :=
      hsame.mp ⟨c, hc, .inr ⟨e, he, err, hj, code, msg, hreply, .inl (by omega)⟩⟩
    · exact hsafe ⟨c', hc', hclear⟩
    · obtain rfl := hjudged c hc c' hc' e he e' he' err err' hj hj'
      obtain ⟨rfl, -⟩ := Prod.mk.inj (Option.some.inj (hreply.symm.trans hreply'))
      omega
  · rintro (⟨c, hc, hclear⟩ | hbeyond)
    · exact ⟨fun _ => ⟨c, hc, .inl hclear⟩, fun _ => ⟨c, hc, .inl hclear⟩⟩
    · constructor
      · rintro ⟨c, hc, hclear | ⟨e, he, err, hj, code, msg, hreply, hbad⟩⟩
        · exact ⟨c, hc, .inl hclear⟩
        · refine ⟨c, hc, .inr ⟨e, he, err, hj, code, msg, hreply, hbad.imp_left fun hcode => ?_⟩⟩
          refine ⟨hcode, not_le.mp fun hle => ?_⟩
          exact hbeyond c hc ⟨e, he, err, hj, code, msg, hreply, hle⟩
      · rintro ⟨c, hc, hclear | ⟨e, he, err, hj, code, msg, hreply, hbad⟩⟩
        · exact ⟨c, hc, .inl hclear⟩
        · exact ⟨c, hc, .inr ⟨e, he, err, hj, code, msg, hreply, hbad.imp_left And.left⟩⟩

/-! ## The order of the endpoints -/

/-- The last probe found the endpoint unready. -/
def unready (probed : List EndpointStatus) (ep : SMTPEndpoint) : Bool :=
  probed.any fun st =>
    !st.ready && decide (joinHostPort st.host st.port = joinHostPort ep.host ep.port)

theorem preferReadyEndpoints_eq (eps : List SMTPEndpoint) (probed : List EndpointStatus) :
    preferReadyEndpoints eps probed =
      eps.filter (fun ep => !unready probed ep) ++ eps.filter (unready probed) := by
  have hcontains : ∀ ep : SMTPEndpoint,
      ((probed.filter fun st => !st.ready).map fun st => joinHostPort st.host st.port).contains
        (joinHostPort ep.host ep.port) = unready probed ep := by
    intro ep
    rw [Bool.eq_iff_iff, List.contains_iff_mem, unready, List.any_eq_true]
    simp [and_assoc]
  simp only [preferReadyEndpoints, hcontains]
  split
  · rename_i hnone
    have hready : ∀ ep, unready probed ep = false := by
      intro ep
      rw [← hcontains ep, List.length_eq_zero_iff.mp hnone]
      rfl
    simp [hready]
  · rfl

theorem filter_preferReadyEndpoints (eps : List SMTPEndpoint) (probed : List EndpointStatus)
    (b : Bool) : (preferReadyEndpoints eps probed).filter (fun ep => unready probed ep == b) =
      eps.filter fun ep => unready probed ep == b := by
  rw [preferReadyEndpoints_eq, List.filter_append, List.filter_filter, List.filter_filter]
  cases b with
  | true =>
    have hnone : eps.filter (fun ep => (unready probed ep == true) && !unready probed ep) = [] :=
      List.filter_eq_nil_iff.mpr (by simp)
    rw [hnone, List.nil_append]
    simp
  | false =>
    have hnone : eps.filter (fun ep => (unready probed ep == false) && unready probed ep) = [] :=
      List.filter_eq_nil_iff.mpr (by simp)
    rw [hnone, List.append_nil]
    simp

theorem preferReadyEndpoints_perm (eps : List SMTPEndpoint) (probed : List EndpointStatus) :
    (preferReadyEndpoints eps probed).Perm eps := by
  rw [preferReadyEndpoints_eq]
  exact List.perm_append_comm.trans (List.filter_append_perm (unready probed) eps)

/-- **A message is handed over at most once.**  Over the endpoints in the order
`preferReadyEndpoints` puts them, and whatever they answer: those contacted are the
first ones; at most one MAIL command is issued; the body is sent only where every
recipient was accepted; the send succeeds if the last endpoint contacted accepted the
message; and otherwise its error is permanent if an endpoint contacted failed by
configuration, by a reply of 500 or more in the MAIL/RCPT/DATA phase, or there by
"too many recipients".  These replies of 500 or more are 5xx replies exactly if no
endpoint contacted goes beyond that range in that phase, or one failed by configuration
besides. -/
theorem sendBody_hands_over_once (L : Libraries) (cfg : SMTPConfig) (probed : List EndpointStatus)
    (findStringSubmatch : Bytes → Bytes → Option (List Bytes)) (now : Int) (envelopeFrom : Bytes)
    (rcpts : List Bytes) (body msgID : Bytes) (t : Trace Call Call.Answer)
    (res : Except Err SendResult)
    (h : (sendBody L { cfg with endpoints := preferReadyEndpoints cfg.endpoints probed }
      findStringSubmatch now envelopeFrom rcpts body msgID).Ran t res) :
    (conversations t).map Prod.fst <+: preferReadyEndpoints cfg.endpoints probed ∧
    (preferReadyEndpoints cfg.endpoints probed).Perm cfg.endpoints ∧
    (∀ b, (preferReadyEndpoints cfg.endpoints probed).filter (fun ep => unready probed ep == b) =
      cfg.endpoints.filter fun ep => unready probed ep == b) ∧
    t.countP (fun e => e.1.isMail) ≤ 1 ∧
    (∀ c ∈ conversations t, ∀ earlier e later, c.2 = earlier ++ e :: later →
      e.1.isWrite = true → earlier.filterMap acceptedRcpt = rcpts) ∧
    ((∃ r, res = .ok r) ↔ ∃ c ∈ (conversations t).getLast?, Accepted c.2) ∧
    ∀ err, res = .error err →
      (.upstreamPermanent ∈ err.is ↔ ∃ c ∈ conversations t, FailsForGood L cfg (500 ≤ ·) c) ∧
      ((.upstreamPermanent ∈ err.is ↔ ∃ c ∈ conversations t,
          FailsForGood L cfg (fun code => 500 ≤ code ∧ code < 600) c) ↔
        (∃ c ∈ conversations t, RefusesCleartext cfg c) ∨
          ∀ c ∈ conversations t, ¬ RepliesBeyond c) := by
  obtain ⟨t₁, out, t₂, rfl, htry, hrest⟩ := Prog.ran_bind.mp h
  have htried := tryEndpoints_tried htry
  cases out with
  | none =>
    obtain ⟨rfl, rfl⟩ := Prog.ran_pure.mp hrest
    rw [List.append_nil]
    refine ⟨htried.contacted, preferReadyEndpoints_perm .., filter_preferReadyEndpoints _ _,
      htried.mails, htried.written, ?_, nofun⟩
    exact ⟨fun _ => htried.accepted.mp rfl, fun _ => ⟨_, rfl⟩⟩
  | some failure =>
    obtain ⟨lastErr, transient⟩ := failure
    have hgood := htried.forGood lastErr transient rfl
    have hfailed : ∃ err, t₂ = [] ∧ res = .error err ∧
        (.upstreamPermanent ∈ err.is ↔ transient = false) := by
      cases transient with
      | true =>
        obtain ⟨ht₂, hres⟩ := Prog.ran_pure.mp hrest
        refine ⟨_, ht₂, hres, ?_⟩
        simp only [withRetryAfter]
        split <;> simp
      | false =>
        obtain ⟨ht₂, hres⟩ := Prog.ran_pure.mp hrest
        exact ⟨_, ht₂, hres, by simp⟩
    obtain ⟨err, rfl, rfl, hpermanent⟩ := hfailed
    rw [List.append_nil]
    refine ⟨htried.contacted, preferReadyEndpoints_perm .., filter_preferReadyEndpoints _ _,
      htried.mails, htried.written, ?_, ?_⟩
    · constructor
      · rintro ⟨r, hr⟩
        cases hr
      · intro haccepted
        cases htried.accepted.mpr haccepted
    · intro err' herr
      have hforGood : .upstreamPermanent ∈ err'.is ↔
          ∃ c ∈ conversations t₁, FailsForGood L cfg (500 ≤ ·) c := by
        rw [← Except.error.inj herr, hpermanent, hgood]
        simp only [Bool.true_eq_false, false_or]
        rfl
      refine ⟨hforGood, ?_⟩
      rw [hforGood]
      exact fails_5xx_iff htried.judged

section Replies

/-- A relay without TLS or authentication. -/
def plainRelay : SMTPConfig where
  endpoints := [⟨lit "relay", 25, .none, false⟩]
  authType := .unset
  username := []
  password := []
  timeout := 10
  helo := []
  rootCAs := none

/-- Everything goes through but MAIL, which gets the reply `code`. -/
def refusesMail (code : Int) (_ : Unit) : (c : Call) → c.Answer × Unit
  | .command (.mail _) => (some ⟨lit "refused", some (code, lit "refused")⟩, ())
  | .command _ => (none, ())
  | .extension _ => (true, ())
  | .quit | .closeConn => ((), ())

def refusedRun (code : Int) : Unit × Trace Call Call.Answer × Except Err SendResult :=
  (sendBody .plain plainRelay (fun _ _ => none) 0 (lit "a@b") [lit "c@d"] [] []).run
    (refusesMail code) () []

theorem conversations_refusedRun :
    conversations (refusedRun 600).2.1 = [(⟨lit "relay", 25, .none, false⟩,
      [done (.dial ⟨lit "relay", 25, .none, false⟩), done .setDeadline,
        done (.newClient (lit "relay")), done (.hello (helo plainRelay)), done .setDeadline,
        done .contextErr,
        ⟨.command (.mail (lit "a@b")), some ⟨lit "refused", some (600, lit "refused")⟩⟩,
        ⟨.quit, ()⟩, ⟨.closeConn, ()⟩])] := rfl

/-- A reply beyond the 5xx range is permanent as well. -/
theorem sendBody_permanent_beyond_5xx :
    ∃ t err, (sendBody .plain plainRelay (fun _ _ => none) 0 (lit "a@b") [lit "c@d"] [] []).Ran t
        (.error err) ∧
      .upstreamPermanent ∈ err.is ∧
      ¬ ∃ c ∈ conversations t,
        FailsForGood .plain plainRelay (fun code => 500 ≤ code ∧ code < 600) c := by
  refine ⟨(refusedRun 600).2.1, _, Prog.ran_run (refusesMail 600) _ (), List.mem_cons_self, ?_⟩
  rintro ⟨c, hc, hbad⟩
  rw [conversations_refusedRun] at hc
  obtain rfl := List.mem_singleton.mp hc
  rcases hbad with ⟨hauth, -⟩ | ⟨e, he, err, hj, code, msg, hreply, hcode⟩
  · cases hauth
  · simp only [List.mem_cons, List.not_mem_nil, or_false] at he
    rcases he with rfl | rfl | rfl | rfl | rfl | rfl | rfl | rfl | rfl <;>
      simp [judgement, done, Command.judges] at hj
    subst hj
    obtain ⟨rfl, -⟩ := Prod.mk.inj (Option.some.inj hreply)
    omega

/-- Two relays with the same settings. -/
def twoRelays : SMTPConfig :=
  { plainRelay with
    endpoints := [⟨lit "relay-a", 25, .none, false⟩, ⟨lit "relay-b", 25, .none, false⟩] }

/-- The first relay is down, and the other refuses the second of two recipients. -/
def failsOver (_ : Unit) : (c : Call) → c.Answer × Unit
  | .command (.dial ep) =>
    (if ep.host = lit "relay-a" then some ⟨lit "connection refused", none⟩ else none, ())
  | .command (.rcpt r) =>
    (if r = lit "c@d" then none else some ⟨lit "no such user", some (550, lit "no such user")⟩, ())
  | .command _ => (none, ())
  | .extension _ => (true, ())
  | .quit | .closeConn => ((), ())

def failoverRun : Unit × Trace Call Call.Answer × Except Err SendResult :=
  (sendBody .plain twoRelays (fun _ _ => none) 0 (lit "a@b") [lit "c@d", lit "e@f"] [] []).run
    failsOver () []

theorem sendBody_hands_over_once_failover :
    (conversations failoverRun.2.1).map Prod.fst = twoRelays.endpoints ∧
      failoverRun.2.1.countP (fun e => e.1.isMail) ≤ 1 ∧
      ∃ c ∈ conversations failoverRun.2.1, FailsForGood .plain twoRelays (500 ≤ ·) c := by
  have hrun : (sendBody .plain { twoRelays with
      endpoints := preferReadyEndpoints twoRelays.endpoints [] } (fun _ _ => none) 0 (lit "a@b")
      [lit "c@d", lit "e@f"] [] []).Ran failoverRun.2.1 failoverRun.2.2 :=
    Prog.ran_run failsOver _ ()
  obtain ⟨-, -, -, hmails, -, -, hfailed⟩ := sendBody_hands_over_once .plain twoRelays []
    (fun _ _ => none) 0 (lit "a@b") [lit "c@d", lit "e@f"] [] [] _ _ hrun
  exact ⟨rfl, hmails, (hfailed _ rfl).1.mp List.mem_cons_self⟩

end Replies

end SMTP
end Sigillum
