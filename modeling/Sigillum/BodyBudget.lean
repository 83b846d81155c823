import Sigillum.APIServer
import Sigillum.GatewaySafety

/-! # The bodies held at once

`internal/apiserver/bodybudget.go`: a request reserves the length of its body before it is
read, and gives it back when it has been answered.  The budget is a `semaphore.Weighted` of
`golang.org/x/sync`, a parameter here with what its documentation says of it; an `Acquire` that
waits is a call that has not returned yet, so that other requests come before it does.

`Disciplined` is what one request does with it; `bodies_bounded` puts any number of them over
one budget.
-/
namespace Sigillum
namespace APIServer
namespace BodyBudget
open Bytes Interaction

/-- A `semaphore.Weighted` of a size, as it is documented: `Acquire` leaves it unchanged when it
fails, and the parts acquired and not released never are more than the size together. -/
structure Semaphore (size : Nat) where
  State : Type
  /-- `NewWeighted`. -/
  new : State
  /-- How much has been acquired, by calls that returned, and has not been released. -/
  held : State → Nat
  /-- An `Acquire` of so much returns: whether without an error, and what becomes of it. -/
  acquire : Nat → State → Bool → State → Prop
  release : Nat → State → State → Prop
  held_new : held new = 0
  held_acquire : ∀ {n s s'}, acquire n s true s' → held s' = held s + n
  held_le : ∀ {n s s'}, acquire n s true s' → held s' ≤ size
  held_of_failed : ∀ {n s s'}, acquire n s false s' → held s' = held s
  /-- `Release` of no more than is held; it panics on more. -/
  held_release : ∀ {n s s'}, release n s s' → n ≤ held s → held s' = held s - n

section Budget
variable {size : Int}

/-- The semaphore answers as it is documented to; of the rest of what a request calls nothing
is assumed. -/
def serve (S : Semaphore size.toNat) (s : S.State) : (c : Call) → c.Answer → S.State → Prop
  | .acquire n, ok, s' => S.acquire n s ok s'
  | .release n, _, s' => S.release n s s'
  | _, _, s' => s' = s

/-- An api-server with its requests under way got here from none. -/
def Reachable (S : Semaphore size.toNat) (L : Libraries) (D : Decoders)
    (g : Pool S.State HTTPRequest Call Call.Answer Response) : Prop :=
  Pool.ReachesBy (fun _ => serve S) (authMiddleware size L D) S.new g

end Budget

/-! ## How a request uses the semaphore -/

/-- Where a request is with the semaphore. -/
inductive Phase where
  | fresh
  | holding (n : Nat)
  | gone
  deriving DecidableEq, Repr

def Phase.next : Phase → Event Call Call.Answer → Phase
  | _, ⟨.acquire n, ok⟩ => if ok then .holding n else .gone
  | _, ⟨.release _, _⟩ => .gone
  | phase, _ => phase

def phase (t : Trace Call Call.Answer) : Phase := t.foldl Phase.next .fresh

@[simp] theorem phase_concat (t : Trace Call Call.Answer) (e : Event Call Call.Answer) :
    phase (t ++ [e]) = (phase t).next e := by
  simp [phase]

/-- What a request holds of the budget. -/
def Phase.weight : Phase → Nat
  | .holding n => n
  | _ => 0

/-- What a request keeps to: it asks once, for its reservation; it gives back what it holds;
and the gateway is called while it holds it. -/
def Disciplined (size : Int) (r : HTTPRequest) (t : Trace Call Call.Answer) : Call → Prop
  | .acquire n => phase t = .fresh ∧ n = reservation size r.contentLength
  | .release n => phase t = .holding n
  | .gateway _ => reservation size r.contentLength = 0 ∨
      phase t = .holding (reservation size r.contentLength)
  | _ => True

/-- A request with room for its body; one that needs none has not asked. -/
def admitted (size : Int) (r : HTTPRequest) : Phase :=
  if reservation size r.contentLength = 0 then .fresh
  else .holding (reservation size r.contentLength)

section Handler
variable {size : Int} {L : Libraries} {D : Decoders} {r : HTTPRequest}
  {t : Trace Call Call.Answer}

/-- The calls of a body that is handled. -/
def WithBody : Call → Prop
  | .gateway _ | .reject _ => True
  | _ => False

theorem refuse_only (e : APIServer.Entry) (reason : String) (res : Response) :
    (refuse e reason res).Only WithBody :=
  Prog.Only.call trivial fun _ => Prog.only_pure

theorem handleBody_only (s : Subject) (e : APIServer.Entry) :
    (handleBody L D r s e).Only WithBody := by
  unfold handleBody
  split
  · exact refuse_only _ _ _
  · exact Prog.Only.bind (Prog.only_lift (fun _ => trivial) _) fun _ => Prog.only_pure

/-- The room is held until the answer is there. -/
theorem handleBody_keeps {s : Subject} {e : APIServer.Entry} (ht : phase t = admitted size r) :
    (handleBody L D r s e).Keeps (fun _ => True) (Disciplined size r)
      (fun t' _ => phase t' = admitted size r) t := by
  refine (handleBody_only s e).keeps_invariant (fun t c hheld hc => ?_) (fun t e hheld he => ?_) ht
  · cases c with
    | gateway c =>
      unfold admitted at hheld
      split at hheld
      · exact .inl (by assumption)
      · exact .inr hheld
    | reject e => trivial
    | _ => exact hc.elim
  · rw [phase_concat, hheld]
    obtain ⟨c, a⟩ := e
    cases c <;> first | rfl | exact he.elim

theorem refuse_keeps {e : APIServer.Entry} {reason : String} {res : Response}
    (ht : (phase t).weight = 0) :
    (refuse e reason res).Keeps (fun _ => True) (Disciplined size r)
      (fun t' _ => (phase t').weight = 0) t := by
  refine (Prog.keeps_call (c := Call.reject _)).mpr ⟨trivial, fun _ _ => ?_⟩
  rw [Prog.keeps_pure, phase_concat]
  exact ht

theorem reserve_keeps (ht : phase t = .fresh) :
    (reserve size r.contentLength).Keeps (fun _ => True) (Disciplined size r)
      (fun t' ok => phase t' = if ok then admitted size r else .gone) t := by
  unfold reserve admitted
  split
  · exact ht
  · refine (Prog.keeps_perform (c := Call.acquire _)).mpr ⟨⟨ht, rfl⟩, fun ok _ => ?_⟩
    rw [phase_concat]
    rfl

theorem giveBack_keeps (ht : phase t = admitted size r) :
    (giveBack size r.contentLength).Keeps (fun _ => True) (Disciplined size r)
      (fun t' _ => (phase t').weight = 0) t := by
  unfold admitted at ht
  unfold giveBack
  split
  · rw [if_pos (by assumption)] at ht
    rw [Prog.keeps_pure, ht]
    rfl
  · rw [if_neg (by assumption)] at ht
    refine (Prog.keeps_perform (c := Call.release _)).mpr ⟨ht, fun _ _ => ?_⟩
    rw [phase_concat]
    rfl

theorem handleSendMessage_keeps {subject : Option Subject} (ht : phase t = .fresh) :
    (APIServer.handleSendMessage size L D r subject).Keeps (fun _ => True) (Disciplined size r)
      (fun t' _ => (phase t').weight = 0) t := by
  refine Prog.keeps_call.mpr ⟨trivial, fun msgID _ => ?_⟩
  refine Prog.keeps_call.mpr ⟨trivial, fun shutting _ => ?_⟩
  have hfresh : phase (t ++ [⟨.newID, msgID⟩] ++ [⟨.shutting, shutting⟩]) = .fresh := by
    rw [phase_concat, phase_concat, ht]
    rfl
  have hfree : (phase (t ++ [⟨.newID, msgID⟩] ++ [⟨.shutting, shutting⟩])).weight = 0 := by
    rw [hfresh]
    rfl
  split
  · exact refuse_keeps hfree
  · cases subject with
    | none => exact refuse_keeps hfree
    | some s =>
      dsimp only
      split
      · exact refuse_keeps hfree
      · refine Prog.keeps_bind.mpr ((reserve_keeps hfresh).mono fun t' ok ht' => ?_)
        cases ok with
        | false =>
          refine refuse_keeps ?_
          rw [ht']
          rfl
        | true =>
          refine Prog.keeps_bind.mpr ((handleBody_keeps ht').mono fun t'' res hheld => ?_)
          exact Prog.keeps_bind.mpr ((giveBack_keeps hheld).mono fun _ _ hfree => hfree)

theorem refuseToken_keeps {reason : String} {res : Response} (ht : phase t = .fresh) :
    (refuseToken reason res).Keeps (fun _ => True) (Disciplined size r)
      (fun t' _ => (phase t').weight = 0) t := by
  refine Prog.keeps_call.mpr ⟨trivial, fun msgID _ => refuse_keeps ?_⟩
  rw [phase_concat, ht]
  rfl

/-- **What a request does with the semaphore.**  It keeps to the discipline, and does not end
with what it holds. -/
theorem authMiddleware_keeps :
    (authMiddleware size L D r).Keeps (fun _ => True) (Disciplined size r)
      (fun t' _ => (phase t').weight = 0) [] := by
  unfold authMiddleware
  dsimp only
  split
  · exact refuseToken_keeps rfl
  · refine Prog.keeps_call.mpr ⟨trivial, fun answer _ => ?_⟩
    cases answer with
    | error err =>
      cases err with
      | unavailable err => exact refuseToken_keeps rfl
      | refused err => exact refuseToken_keeps rfl
    | ok s => exact handleSendMessage_keeps rfl

end Handler

/-! ## Many requests -/

/-- What the requests hold together, given what each has done. -/
def reserved : List (Trace Call Call.Answer) → Nat
  | [] => 0
  | t :: ts => (phase t).weight + reserved ts

theorem reserved_append (ts ts' : List (Trace Call Call.Answer)) :
    reserved (ts ++ ts') = reserved ts + reserved ts' := by
  induction ts with
  | nil => simp [reserved]
  | cons t ts ih =>
    rw [List.cons_append, reserved, reserved, ih]
    omega

theorem reserved_caller (before : List (Trace Call Call.Answer)) (t : Trace Call Call.Answer)
    (after : List (Trace Call Call.Answer)) :
    reserved (before ++ t :: after) = reserved (before ++ after) + (phase t).weight := by
  rw [reserved_append, reserved_append, reserved]
  omega

theorem reserved_eq_zero {ts : List (Trace Call Call.Answer)}
    (h : ∀ t ∈ ts, (phase t).weight = 0) : reserved ts = 0 := by
  induction ts with
  | nil => rfl
  | cons t ts ih =>
    rw [List.forall_mem_cons] at h
    rw [reserved, h.1, ih h.2]

section Account
variable {size : Int} {S : Semaphore size.toNat}

/-- The semaphore's account is that of the requests. -/
structure Accounted (S : Semaphore size.toNat) (s : S.State)
    (ts : List (Trace Call Call.Answer)) : Prop where
  balance : S.held s = reserved ts
  bounded : reserved ts ≤ size.toNat

theorem accounted_nil : Accounted S S.new [] := ⟨S.held_new, Nat.zero_le _⟩

theorem Accounted.start {s : S.State} {ts : List (Trace Call Call.Answer)}
    (h : Accounted S s ts) : Accounted S s (ts ++ [[]]) := by
  have hsame : reserved (ts ++ [[]]) = reserved ts := by
    rw [reserved_append]
    rfl
  exact ⟨hsame.symm ▸ h.balance, hsame.symm ▸ h.bounded⟩

/-- **One step of a request** keeps the account. -/
theorem serve_accounted {before after : List (Trace Call Call.Answer)}
    {t : Trace Call Call.Answer} {r : HTTPRequest} {c : Call} {a : c.Answer} {s s' : S.State}
    (h : Accounted S s (before ++ t :: after)) (hcall : Disciplined size r t c)
    (hserve : serve S s c a s') : Accounted S s' (before ++ (t ++ [⟨c, a⟩]) :: after) := by
  obtain ⟨hbalance, hbounded⟩ := h
  rw [reserved_caller] at hbalance hbounded
  -- what the others hold does not change
  suffices haccount : S.held s' = reserved (before ++ after) + ((phase t).next ⟨c, a⟩).weight ∧
      S.held s' ≤ size.toNat by
    have hreserved : reserved (before ++ (t ++ [⟨c, a⟩]) :: after) = S.held s' := by
      rw [reserved_caller, phase_concat, haccount.1]
    exact ⟨hreserved.symm, hreserved ▸ haccount.2⟩
  cases c with
  | acquire n =>
    rw [hcall.1] at hbalance hbounded
    cases a with
    | true => exact ⟨(S.held_acquire hserve).trans (congrArg (· + n) hbalance), S.held_le hserve⟩
    | false =>
      rw [S.held_of_failed hserve]
      exact ⟨hbalance, hbalance ▸ hbounded⟩
  | release n =>
    rw [show phase t = .holding n from hcall] at hbalance hbounded
    have hheld : S.held s = reserved (before ++ after) + n := hbalance
    have hreleased := S.held_release hserve (hheld ▸ Nat.le_add_left _ _)
    rw [hheld, Nat.add_sub_cancel] at hreleased
    exact ⟨hreleased, hreleased ▸ Nat.le_trans (Nat.le_add_right _ _) hbounded⟩
  | _ =>
    obtain rfl : s' = s := hserve
    exact ⟨hbalance, hbalance ▸ hbounded⟩

/-- **The budget is kept.**  Requests that hold room together hold no more than its size, and
just what the semaphore has given; each asks at most once, for its reservation; the gateway is
called for a request only while it holds its room; it releases what it holds, so `Release` never
panics; and when all have ended the whole budget is free. -/
structure Kept (S : Semaphore size.toNat)
    (g : Pool S.State HTTPRequest Call Call.Answer Response) : Prop where
  bounded : reserved g.traces ≤ size.toNat
  balance : S.held g.shared = reserved g.traces
  asks : ∀ th ∈ g.threads, ∀ earlier later n ok,
    th.done = earlier ++ ⟨.acquire n, ok⟩ :: later →
    phase earlier = .fresh ∧ n = reservation size th.input.contentLength
  covered : ∀ th ∈ g.threads, ∀ earlier later c a,
    th.done = earlier ++ ⟨.gateway c, a⟩ :: later →
    reservation size th.input.contentLength = 0 ∨
      phase earlier = .holding (reservation size th.input.contentLength)
  releases : ∀ th ∈ g.threads, ∀ earlier later n a,
    th.done = earlier ++ ⟨.release n, a⟩ :: later → phase earlier = .holding n
  returned : (∀ th ∈ g.threads, ∃ res, th.rest = .pure res) → S.held g.shared = 0

/-- **The bodies held at once are bounded**, at any time and for any number of requests to
`POST /v1/messages`, whatever the token review, the gateway and the clock do. -/
theorem bodies_bounded (size : Int) (S : Semaphore size.toNat) (L : Libraries) (D : Decoders)
    (g : Pool S.State HTTPRequest Call Call.Answer Response) (hg : Reachable S L D g) :
    Kept S g := by
  obtain ⟨haccounted, hths⟩ := hg.keeps (J := Accounted S) (P := fun _ => True) accounted_nil
    (fun _ _ h => h.start) (fun r _ _ _ _ _ _ _ h hcall hserve =>
      ⟨serve_accounted (r := r) h hcall hserve, trivial⟩)
    fun r => authMiddleware_keeps (r := r)
  refine ⟨haccounted.bounded, haccounted.balance,
    fun th hth earlier later n ok hdone => ((hths th hth).1 earlier later _ hdone).1,
    fun th hth earlier later c a hdone => ((hths th hth).1 earlier later _ hdone).1,
    fun th hth earlier later n a hdone => ((hths th hth).1 earlier later _ hdone).1,
    fun hall => ?_⟩
  rw [haccounted.balance]
  refine reserved_eq_zero fun t ht => ?_
  obtain ⟨th, hth, rfl⟩ := List.mem_map.mp ht
  obtain ⟨res, hres⟩ := hall th hth
  have hended := (hths th hth).2
  rw [hres] at hended
  exact hended

end Account

section Relay

def relayPayload : Payload :=
  ⟨{ sampleRequest [] with fromAddr := lit "app@example.com" }, [], []⟩

def relayJSON : Bytes :=
  lit "\x7b\"from\":\"app@example.com\",\"to\":[\"a@x.example\"]," ++
    lit "\"body\":\x7b\"text\":\"text\"\x7d\x7d"

def relayRequest : HTTPRequest where
  authorization := lit "bearer 3f2a"
  contentType := lit "application/json"
  mediaType := lit "application/json"
  contentLength := relayJSON.length
  body := .ok relayJSON
  form := ([], none)

/-- A budget of 100 bytes: a semaphore that is its count. -/
def relayBudget : Semaphore (Int.toNat 100) where
  State := Nat
  new := 0
  held s := s
  acquire n s ok s' := (ok = true ↔ s + n ≤ 100) ∧ s' = if ok then s + n else s
  release n s s' := s' = s - n
  held_new := rfl
  held_acquire h := h.2
  held_le h := h.2.symm ▸ h.1.mp rfl
  held_of_failed h := h.2
  held_release h _ := h

/-- The token is accepted, and the message is relayed. -/
def relayAnswer (s : Nat) : (c : Call) → c.Answer × Nat
  | .newID => (lit "m1", s)
  | .shutting => (false, s)
  | .authenticate _ => (.ok ⟨lit "team", lit "app"⟩, s)
  | .reject _ => ((), s)
  | .gateway c => ((Gateway.relayAnswer ∅ c).1, s)
  | .acquire n => if s + n ≤ 100 then (true, s + n) else (false, s)
  | .release n => ((), s - n)

theorem relayAnswer_serve (s : Nat) (c : Call) :
    serve relayBudget s c (relayAnswer s c).1 (relayAnswer s c).2 := by
  cases c with
  | acquire n =>
    by_cases hroom : s + n ≤ 100
    · simp only [relayAnswer, if_pos hroom]
      exact ⟨iff_of_true rfl hroom, rfl⟩
    · simp only [relayAnswer, if_neg hroom]
      exact ⟨iff_of_false Bool.false_ne_true hroom, rfl⟩
  | _ => rfl

def relayProgram : HTTPRequest → Handler Response :=
  authMiddleware 100 .plain (sampleDecoders relayJSON relayPayload)

/-- A request up to the moment it has its room. -/
def firstHolds : Nat × Trace Call Call.Answer × Handler Response :=
  (relayProgram relayRequest).runFor relayAnswer 4 0 []

/-- Another, which comes meanwhile. -/
def secondRun : Nat × Trace Call Call.Answer × Response :=
  (relayProgram relayRequest).run relayAnswer firstHolds.1 []

/-- The rest of the first. -/
def firstRun : Nat × Trace Call Call.Answer × Response :=
  firstHolds.2.2.run relayAnswer secondRun.1 firstHolds.2.1

/-- Two requests of 70 bytes each over a budget of 100: the second gets no room while the first
has its own, and is refused; in the end the whole budget is free. -/
theorem bodies_bounded_contended :
    phase firstHolds.2.1 = .holding 70 ∧ secondRun.2.2.status = 503 ∧
      firstRun.2.2.status = 202 ∧
      Kept relayBudget
        ⟨secondRun.1, [⟨relayRequest, firstHolds.2.1, firstHolds.2.2⟩,
          ⟨relayRequest, secondRun.2.1, .pure secondRun.2.2⟩]⟩ ∧
      firstRun.1 = 0 := by
  have hholds : phase firstHolds.2.1 = .holding 70 := by decide +kernel
  have hsecond : secondRun.2.2.status = 503 := by decide +kernel
  have hfirst : firstRun.2.2.status = 202 := by decide +kernel
  have hserve : ∀ s c, serve relayBudget s c (relayAnswer s c).1 (relayAnswer s c).2 :=
    relayAnswer_serve
  have hstart : Pool.ReachesBy (fun _ => serve relayBudget) relayProgram (0 : Nat)
      ⟨(0 : Nat), [⟨relayRequest, [], relayProgram relayRequest⟩]⟩ :=
    .single (.start (0 : Nat) [] relayRequest)
  have hmeanwhile := Pool.ReachesBy.run hserve
    (Pool.ReachesBy.advance [] [] hserve 4 hstart) relayRequest
  have hended := Pool.ReachesBy.finish [] [_] hserve hmeanwhile
  have hkept := bodies_bounded 100 relayBudget .plain (sampleDecoders relayJSON relayPayload) _
    hended
  refine ⟨hholds, hsecond, hfirst, bodies_bounded 100 relayBudget .plain
    (sampleDecoders relayJSON relayPayload) _ hmeanwhile, hkept.returned ?_⟩
  exact List.forall_mem_cons.mpr ⟨⟨_, rfl⟩, List.forall_mem_singleton.mpr ⟨_, rfl⟩⟩

end Relay

end BodyBudget
end APIServer
end Sigillum
