import Mathlib.Data.Finset.Card
import Mathlib.Order.Lattice
import Sigillum.GatewaySafety
import Sigillum.RedisLimiter

/-! # Refunds of a limiter that fails open

Any number of sends over one `RedisLimiter` with `FailOpen`, each call of which
reaches Redis or does not.  A send remembers that `Allow` said yes, not whether a
hit was stored, so the `Refund` of a send that was let through during an outage
takes whatever hit is the newest (`refund_takes_another_hit`).  As long as no
refund does that, the hits stored under a key are those of the sends that were
charged and not given their charge back (`refunds_balance`).
-/
namespace Sigillum
open Bytes Interaction SortedSet

namespace RedisLimiter
variable {M : Type} [LinearOrder M]

/-- `Allow` reaches Redis and stores a hit. -/
def recordsHit (l : RedisLimiter) (r : Redis M) (key : Bytes) (limits : Limits)
    (link : Link (Nat × M)) : Bool :=
  !limits.isNone && match link with
  | .up (clock, member) => (slidingWindow limits member clock (r (l.keyPrefix ++ key))).1.1 == 1
  | .down _ => false

/-- The call finds every hit it stored earlier, and its member is a new one. -/
def AllowKeepsHits (l : RedisLimiter) (r : Redis M) (key : Bytes) (limits : Limits) :
    Link (Nat × M) → Prop
  | .up (clock, member) =>
    scriptTrim limits (scriptNow clock) (r (l.keyPrefix ++ key)) = r (l.keyPrefix ++ key) ∧
      member ∉ (r (l.keyPrefix ++ key)).members
  | .down _ => True

/-- The call comes before the key expires. -/
def RefundKeepsHits (l : RedisLimiter) (r : Redis M) (key : Bytes) : Link Nat → Prop
  | .up clock => live (scriptNow clock) (r (l.keyPrefix ++ key)) = r (l.keyPrefix ++ key)
  | .down _ => True

end RedisLimiter

namespace Gateway

/-! ## Sends over one Redis -/

/-- What the sends share, and the books on it: which sends, by number, have
recorded a hit under a key, and which have had a refund of a key reach Redis. -/
structure LimitedWorld (M : Type) [LinearOrder M] where
  cache : ValidityCache
  redis : Redis M
  recorded : Finset (Nat × Bytes)
  refunded : Finset (Nat × Bytes)

/-- Calls of the limiter. -/
def Call.OfLimiter : Call → Prop
  | .allow _ _ | .refund _ => True
  | _ => False

def Call.IsRefund : Call → Prop
  | .refund _ => True
  | _ => False

namespace LimitedWorld
variable {M : Type} [LinearOrder M]

def start : LimitedWorld M := ⟨∅, fun _ => none, ∅, ∅⟩

/-- How many hits are stored under a key. -/
def hits (w : LimitedWorld M) (l : RedisLimiter) (key : Bytes) : Nat :=
  (w.redis (l.keyPrefix ++ key)).entries.length

/-- How many sends recorded a hit under a key. -/
def recordedOn (w : LimitedWorld M) (key : Bytes) : Nat :=
  (w.recorded.filter fun x => x.2 = key).card

/-- How many of them were refunded. -/
def refundedOn (w : LimitedWorld M) (key : Bytes) : Nat :=
  ((w.recorded ∩ w.refunded).filter fun x => x.2 = key).card

def allow (w : LimitedWorld M) (l : RedisLimiter) (n : Nat) (key : Bytes) (limits : Limits)
    (link : Link (Nat × M)) : Except Err Answer × LimitedWorld M :=
  ((l.allow w.redis key limits link).1,
    { w with
      redis := (l.allow w.redis key limits link).2
      recorded := if l.recordsHit w.redis key limits link then insert (n, key) w.recorded
        else w.recorded })

def refund (w : LimitedWorld M) (l : RedisLimiter) (n : Nat) (key : Bytes) (link : Link Nat) :
    Option Err × LimitedWorld M :=
  ((l.refund w.redis key link).1,
    { w with
      redis := (l.refund w.redis key link).2
      refunded := if (l.refund w.redis key link).1 = none then insert (n, key) w.refunded
        else w.refunded })

/-- How a call of send `n` may be answered, while no hit is trimmed or expires. -/
def serve (W : Object → Prop) (l : RedisLimiter) (n : Nat) (w : LimitedWorld M) :
    (c : Call) → c.Answer → LimitedWorld M → Prop
  | .allow key limits, a, w' => ∃ link, l.AllowKeepsHits w.redis key limits link ∧
      (a, w') = w.allow l n key limits link
  | .refund key, a, w' => ∃ link, l.RefundKeepsHits w.redis key link ∧
      (a, w') = w.refund l n key link
  | c, a, w' => ∃ m, answers W w.cache c a m ∧ w' = { w with cache := m }

/-- A refund that reaches Redis is of a send that recorded a hit, or finds none. -/
def RefundsOwn (l : RedisLimiter) (n : Nat) (w : LimitedWorld M) : (c : Call) → c.Answer → Prop
  | .refund key, a => a = none → (n, key) ∈ w.recorded ∨ w.hits l key = 0
  | _, _ => True

/-! ## What a call does to the hits -/

section Hits
variable {w : LimitedWorld M} {l : RedisLimiter} {n : Nat} {key : Bytes}

/-- A script that trims nothing adds one hit, or leaves the key alone. -/
theorem slidingWindow_of_trim {limits : Limits} {member : M} {clock : Nat} {c : Cell M}
    (htrim : scriptTrim limits (scriptNow clock) c = c) (hnew : member ∉ c.members) :
    (slidingWindow limits member clock c).2.entries.length =
      c.entries.length + if (slidingWindow limits member clock c).1.1 = 1 then 1 else 0 := by
  simp only [slidingWindow, htrim]
  split
  · rfl
  · split
    · rw [entries_pexpire]
      exact length_entries_add hnew
    · exact length_entries_add hnew

theorem write_ne {r : Redis M} {k k' : Bytes} {c : Cell M} (h : k' ≠ k) :
    RedisLimiter.write r k c k' = r k' := if_neg h

theorem write_self {r : Redis M} {k : Bytes} {c : Cell M} : RedisLimiter.write r k c k = c :=
  if_pos rfl

/-- A call of the limiter writes at most the set of its key. -/
theorem hits_of_write {w w' : LimitedWorld M} {c : Cell M}
    (hw : w'.redis = RedisLimiter.write w.redis (l.keyPrefix ++ key) c) (k : Bytes) :
    w'.hits l k = if k = key then c.entries.length else w.hits l k := by
  rw [hits, hw]
  split
  · rename_i hk
    rw [hk, write_self]
  · rename_i hk
    rw [write_ne fun he => hk (List.append_cancel_left he)]
    rfl

theorem hits_allow {limits : Limits} {link : Link (Nat × M)}
    (h : l.AllowKeepsHits w.redis key limits link) (k : Bytes) :
    (w.allow l n key limits link).2.hits l k =
      w.hits l k + if l.recordsHit w.redis key limits link = true ∧ k = key then 1 else 0 := by
  by_cases hnone : limits.isNone = true
  · simp [hits, allow, RedisLimiter.allow, RedisLimiter.recordsHit, hnone]
  · cases link with
    | down err =>
      have hredis : (w.allow l n key limits (.down err)).2.redis = w.redis := by
        simp only [allow, RedisLimiter.allow, if_neg hnone]
        split <;> rfl
      simp [hits, hredis, RedisLimiter.recordsHit]
    | up found =>
      obtain ⟨clock, member⟩ := found
      obtain ⟨htrim, hnew⟩ := h
      have hredis : (w.allow l n key limits (.up (clock, member))).2.redis =
          RedisLimiter.write w.redis (l.keyPrefix ++ key)
            (slidingWindow limits member clock (w.redis (l.keyPrefix ++ key))).2 := by
        simp only [allow, RedisLimiter.allow, if_neg hnone]
        split <;> rfl
      rw [hits_of_write hredis, slidingWindow_of_trim htrim hnew]
      by_cases hk : k = key
      · subst hk
        simp [RedisLimiter.recordsHit, hnone, hits]
      · simp [hk]

theorem hits_refund {link : Link Nat} (h : l.RefundKeepsHits w.redis key link) (k : Bytes) :
    (w.refund l n key link).2.hits l k =
      w.hits l k - if (w.refund l n key link).1 = none ∧ k = key then 1 else 0 := by
  cases link with
  | down err => simp [hits, refund, RedisLimiter.refund]
  | up clock =>
    have hredis : (w.refund l n key (.up clock)).2.redis =
        RedisLimiter.write w.redis (l.keyPrefix ++ key)
          (popMax (live (scriptNow clock) (w.redis (l.keyPrefix ++ key)))) := rfl
    rw [hits_of_write hredis, h, length_entries_popMax]
    by_cases hk : k = key
    · subst hk
      simp [refund, RedisLimiter.refund, hits]
    · simp [hk]

end Hits

/-! ## The books -/

theorem card_filter_insert {s : Finset (Nat × Bytes)} {n : Nat} {key : Bytes}
    (h : (n, key) ∉ s) (k : Bytes) :
    ((insert (n, key) s).filter fun x => x.2 = k).card =
      (s.filter fun x => x.2 = k).card + if k = key then 1 else 0 := by
  rw [Finset.filter_insert]
  by_cases hk : k = key
  · subst hk
    rw [if_pos rfl, if_pos rfl,
      Finset.card_insert_of_notMem fun hmem => h (Finset.mem_filter.mp hmem).1]
  · rw [if_neg (Ne.symm hk), if_neg hk, Nat.add_zero]


/-- Sends that are in the books have called the limiter, and the books are balanced. -/
structure Accounted (l : RedisLimiter) (w : LimitedWorld M) (ts : List (Trace Call Call.Answer)) :
    Prop where
  recorded : ∀ n key, (n, key) ∈ w.recorded → Did Call.OfLimiter ts n
  refunded : ∀ n key, (n, key) ∈ w.refunded → Did Call.IsRefund ts n
  balanced : ∀ key, w.hits l key + w.refundedOn key = w.recordedOn key

namespace Accounted
variable {W : Object → Prop} {l : RedisLimiter} {w w' : LimitedWorld M}
  {before after ts : List (Trace Call Call.Answer)} {t : Trace Call Call.Answer}

theorem start : Accounted l (LimitedWorld.start : LimitedWorld M) [] where
  recorded _ _ h := absurd h (Finset.notMem_empty _)
  refunded _ _ h := absurd h (Finset.notMem_empty _)
  balanced _ := rfl

theorem started (h : Accounted l w ts) : Accounted l w (ts ++ [[]]) where
  recorded n key hn := (h.recorded n key hn).start
  refunded n key hn := (h.refunded n key hn).start
  balanced := h.balanced

/-- A first call of the limiter finds its send in neither book. -/
theorem unbooked (h : Accounted l w (before ++ t :: after)) (hfirst : ∀ e ∈ t, ¬ e.1.OfLimiter)
    (key : Bytes) :
    (before.length, key) ∉ w.recorded ∧ (before.length, key) ∉ w.refunded := by
  constructor
  · intro hmem
    obtain ⟨e, he, hlimiter⟩ := (h.recorded _ _ hmem).caller
    exact hfirst e he hlimiter
  · intro hmem
    obtain ⟨⟨c, a⟩, he, hrefund⟩ := (h.refunded _ _ hmem).caller
    exact hfirst _ he (by cases c <;> trivial)

theorem allow {key : Bytes} {limits : Limits} {a : Call.Answer (.allow key limits)}
    (h : Accounted l w (before ++ t :: after)) (hfirst : ∀ e ∈ t, ¬ e.1.OfLimiter)
    (hserve : w.serve W l before.length (.allow key limits) a w') :
    Accounted l w' (before ++ (t ++ [⟨.allow key limits, a⟩]) :: after) := by
  obtain ⟨link, hkeeps, heq⟩ := hserve
  obtain rfl : w' = (w.allow l before.length key limits link).2 := congrArg Prod.snd heq
  obtain ⟨hnew, hrefunded⟩ := h.unbooked hfirst key
  refine ⟨fun n k hmem => ?_, fun n k hmem => (h.refunded n k hmem).call, fun k => ?_⟩
  · simp only [LimitedWorld.allow] at hmem
    split at hmem
    · rcases Finset.mem_insert.mp hmem with hself | hold
      · obtain rfl := congrArg Prod.fst hself
        exact .last trivial
      · exact (h.recorded n k hold).call
    · exact (h.recorded n k hmem).call
  · have hbalanced := h.balanced k
    rw [hits_allow hkeeps]
    by_cases hrecords : l.recordsHit w.redis key limits link = true
    · simp only [refundedOn, recordedOn, LimitedWorld.allow, hrecords, if_true, true_and,
        Finset.insert_inter_of_notMem hrefunded, card_filter_insert hnew] at hbalanced ⊢
      omega
    · simp only [refundedOn, recordedOn, LimitedWorld.allow, hrecords] at hbalanced ⊢
      exact hbalanced

theorem refund {key : Bytes} {a : Call.Answer (.refund key)}
    (h : Accounted l w (before ++ t :: after)) (hfirst : ∀ e ∈ t, ¬ e.1.IsRefund)
    (hserve : w.serve W l before.length (.refund key) a w')
    (hown : w.RefundsOwn l before.length (.refund key) a) :
    Accounted l w' (before ++ (t ++ [⟨.refund key, a⟩]) :: after) := by
  obtain ⟨link, hkeeps, heq⟩ := hserve
  have hanswer : a = (l.refund w.redis key link).1 := congrArg Prod.fst heq
  obtain rfl : w' = (w.refund l before.length key link).2 := congrArg Prod.snd heq
  have hnew : (before.length, key) ∉ w.refunded := by
    intro hmem
    obtain ⟨e, he, hrefund⟩ := (h.refunded _ _ hmem).caller
    exact hfirst e he hrefund
  refine ⟨fun n k hmem => (h.recorded n k hmem).call, fun n k hmem => ?_, fun k => ?_⟩
  · simp only [LimitedWorld.refund] at hmem
    split at hmem
    · rcases Finset.mem_insert.mp hmem with hself | hold
      · obtain rfl := congrArg Prod.fst hself
        exact .last trivial
      · exact (h.refunded n k hold).call
    · exact (h.refunded n k hmem).call
  · have hbalanced := h.balanced k
    rw [hits_refund hkeeps]
    by_cases hreached : (l.refund w.redis key link).1 = none
    · by_cases hrecorded : (before.length, key) ∈ w.recorded
      · -- its own hit is among those stored, so one is there to be taken
        have hboth : (before.length, key) ∉ w.recorded ∩ w.refunded :=
          fun hmem => hnew (Finset.mem_inter.mp hmem).2
        have hle : ((insert (before.length, key) (w.recorded ∩ w.refunded)).filter
            fun x => x.2 = k).card ≤ (w.recorded.filter fun x => x.2 = k).card :=
          Finset.card_le_card (Finset.filter_subset_filter _
            (Finset.insert_subset hrecorded Finset.inter_subset_left))
        simp only [refundedOn, recordedOn, LimitedWorld.refund, hreached, if_true, true_and,
          Finset.inter_insert_of_mem hrecorded, card_filter_insert hboth] at hbalanced hle ⊢
        omega
      · have hempty : w.hits l key = 0 := (hown (hanswer.trans hreached)).resolve_left hrecorded
        simp only [refundedOn, recordedOn, LimitedWorld.refund, hreached, if_true, true_and,
          Finset.inter_insert_of_notMem hrecorded] at hbalanced ⊢
        by_cases hk : k = key
        · subst hk
          rw [hempty] at hbalanced ⊢
          simpa using hbalanced
        · rw [if_neg hk]
          exact hbalanced
    · simp only [refundedOn, recordedOn, LimitedWorld.refund, hreached] at hbalanced ⊢
      exact hbalanced

end Accounted

/-- The refund of a send that recorded nothing takes the hit of another. -/
theorem unbalanced_refund {W : Object → Prop} {l : RedisLimiter} {w w' : LimitedWorld M} {n : Nat}
    {key : Bytes} {a : Call.Answer (.refund key)}
    (hbalanced : w.hits l key + w.refundedOn key = w.recordedOn key)
    (hserve : w.serve W l n (.refund key) a w') (hother : ¬ w.RefundsOwn l n (.refund key) a) :
    w'.hits l key + w'.refundedOn key < w'.recordedOn key := by
  obtain ⟨link, hkeeps, heq⟩ := hserve
  have hanswer : a = (l.refund w.redis key link).1 := congrArg Prod.fst heq
  obtain rfl : w' = (w.refund l n key link).2 := congrArg Prod.snd heq
  simp only [RefundsOwn, Classical.not_imp, not_or] at hother
  obtain ⟨hnone, hunrecorded, hhits⟩ := hother
  have hreached : (l.refund w.redis key link).1 = none := hanswer.symm.trans hnone
  rw [hits_refund hkeeps]
  simp only [refundedOn, recordedOn, LimitedWorld.refund, hreached, if_true, true_and,
    Finset.inter_insert_of_notMem hunrecorded] at hbalanced ⊢
  omega

end LimitedWorld

/-! ## How a send uses the limiter -/

/-- `Allow` is the first call of the limiter; nothing is refunded twice. -/
def LimiterUse (t : Trace Call Call.Answer) : Call → Prop
  | .allow _ _ => ∀ e ∈ t, ¬ e.1.OfLimiter
  | .refund _ => ∀ e ∈ t, ¬ e.1.IsRefund
  | _ => True

/-- Calls of anything but the limiter. -/
def Call.Unlimited (c : Call) : Prop := ¬ c.OfLimiter

section Use
variable {L : Libraries} {req : Request} {t : Trace Call Call.Answer}

/-- A program that leaves the limiter alone adds no call of it. -/
theorem keeps_of_unlimited {α : Type} {prog : Pipeline α} (h : prog.Only Call.Unlimited)
    {S : Call → Prop} (hS : ∀ c, S c → c.OfLimiter) (ht : ∀ e ∈ t, ¬ S e.1) :
    prog.Keeps (fun _ => True) LimiterUse (fun t' _ => ∀ e ∈ t', ¬ S e.1) t := by
  have hG : ∀ t c, Call.Unlimited c → LimiterUse t c := by
    intro t c hc
    cases c <;> first | trivial | exact absurd trivial hc
  refine (h.keeps hG t).mono ?_
  rintro t' a ⟨new, rfl, hnew⟩ e he
  rcases List.mem_append.mp he with hold | hadded
  · exact ht e hold
  · exact fun hc => hnew e hadded (hS _ hc)

/-- Any call is allowed to come last, where nothing is said of what came before. -/
theorem keeps_record {α : Type} {ev : AuditEvent} {res : α} :
    (do perform (.record ev); pure res : Pipeline α).Keeps (fun _ => True) LimiterUse
      (fun _ _ => True) t :=
  ⟨trivial, fun _ _ => trivial⟩

theorem giveBack_keeps {p : MailPolicy} {charged : Bool} (ht : ∀ e ∈ t, ¬ e.1.IsRefund) :
    (giveBack p charged).Keeps (fun _ => True) LimiterUse (fun _ _ => True) t := by
  unfold giveBack
  split
  · exact ⟨ht, fun _ _ => trivial⟩
  · trivial

theorem notRefund_concat {c : Call} {a : c.Answer} (ht : ∀ e ∈ t, ¬ e.1.IsRefund)
    (hc : ¬ c.IsRefund) : ∀ e ∈ t ++ [⟨c, a⟩], ¬ Call.IsRefund e.1 := by
  intro e he
  rcases List.mem_append.mp he with hold | hlast
  · exact ht e hold
  · rw [List.mem_singleton.mp hlast]
    exact hc

theorem conclude_uses {p : MailPolicy} {key : Bytes} {charged : Bool}
    {outcome : Except Err SendResult} (ht : ∀ e ∈ t, ¬ e.1.IsRefund) :
    (conclude req p key charged outcome).Keeps (fun _ => True) LimiterUse (fun _ _ => True) t := by
  unfold conclude
  cases outcome with
  | ok r => exact keeps_record
  | error err =>
    dsimp only
    split
    · exact Prog.keeps_bind.mpr ((giveBack_keeps ht).mono fun _ _ _ => keeps_record)
    · refine Prog.keeps_bind.mpr ⟨trivial, fun _ _ => ?_⟩
      exact Prog.keeps_bind.mpr ((giveBack_keeps (notRefund_concat ht id)).mono
        fun _ _ _ => trivial)

theorem deliver_uses {p : MailPolicy} {d : Driver} {key : Bytes}
    (ht : ∀ e ∈ t, ¬ e.1.OfLimiter) :
    (deliver req p key d).Keeps (fun _ => True) LimiterUse (fun _ _ => True) t := by
  have hrefund : ∀ c : Call, c.IsRefund → c.OfLimiter := by
    intro c hc
    cases c <;> trivial
  have hnone : ∀ e ∈ t, ¬ e.1.IsRefund := fun e he hc => ht e he (hrefund _ hc)
  have htransmit : (transmit req d key).Only Call.Unlimited :=
    transmit_only (fun _ => id) (fun _ _ _ => id) d key
  unfold deliver
  split
  · exact Prog.keeps_bind.mpr ((keeps_of_unlimited htransmit hrefund hnone).mono
      fun _ _ ht' => conclude_uses ht')
  · refine Prog.keeps_call.mpr ⟨ht, fun res _ => ?_⟩
    cases res with
    | error err => exact keeps_record
    | ok answer =>
      dsimp only
      split
      · exact Prog.keeps_bind.mpr ((keeps_of_unlimited htransmit hrefund
          (notRefund_concat hnone id)).mono fun _ _ ht' => conclude_uses ht')
      · exact keeps_record

theorem dispatch_uses {p : MailPolicy} (ht : ∀ e ∈ t, ¬ e.1.OfLimiter) :
    (dispatch L req p).Keeps (fun _ => True) LimiterUse (fun _ _ => True) t := by
  have hbackend : (backendForPolicy L p).Only Call.Unlimited :=
    backendForPolicy_only (fun _ => id) (fun _ _ => id) (fun _ _ => id) (fun _ => id) p
  refine Prog.keeps_bind.mpr ((keeps_of_unlimited hbackend (fun _ => id) ht).mono
    fun t₁ res ht₁ => ?_)
  cases res with
  | error err => exact keeps_record
  | ok backend =>
    dsimp only
    split
    · exact keeps_record
    · refine Prog.keeps_bind.mpr ((keeps_of_unlimited
        (openDriver_only (fun _ _ => id) (fun _ => id) backend) (fun _ => id) ht₁).mono
        fun t₂ res ht₂ => ?_)
      cases res with
      | error err => exact keeps_record
      | ok d =>
        refine Prog.keeps_bind.mpr ((deliver_uses ht₂).mono fun _ _ _ => ?_)
        exact ⟨trivial, fun _ _ => trivial⟩

theorem decideOn_uses {matched : Option MailPolicy} (ht : ∀ e ∈ t, ¬ e.1.OfLimiter) :
    (decideOn L req matched).Keeps (fun _ => True) LimiterUse (fun _ _ => True) t := by
  unfold decideOn
  split
  · exact keeps_record
  · exact dispatch_uses ht

/-- Whatever it is answered, a send charges at most once and refunds at most once, after. -/
theorem send_uses : (send L req).Keeps (fun _ => True) LimiterUse (fun _ _ => True) [] := by
  have hlist : (perform (.listInNamespace req.identity.ns)).Only Call.Unlimited :=
    Prog.only_perform.mpr id
  have hnil : ∀ e ∈ ([] : Trace Call Call.Answer), ¬ e.1.OfLimiter :=
    fun _ he => absurd he List.not_mem_nil
  refine Prog.keeps_bind.mpr ((keeps_of_unlimited hlist (fun _ => id) hnil).mono
    fun t₁ policies ht₁ => ?_)
  refine Prog.keeps_bind.mpr ((keeps_of_unlimited (serviceAccountLabels_only
    (fun _ _ => id) policies)
    (fun _ => id) ht₁).mono fun t₂ labels ht₂ => ?_)
  split
  · exact decideOn_uses ht₂
  · refine Prog.keeps_bind.mpr ((keeps_of_unlimited (check_only (fun _ => id) (fun _ _ => id) _)
      (fun _ => id) ht₂).mono fun t₃ v ht₃ => ?_)
    split
    · exact decideOn_uses ht₃
    · exact keeps_record

end Use

/-! ## The books of every run -/

variable {M : Type} [LinearOrder M]

/-- Whatever a send calls, as long as refunds take its own hit, the books are kept. -/
theorem LimitedWorld.Accounted.serve {W : Object → Prop} {l : RedisLimiter}
    {w w' : LimitedWorld M} {before after : List (Trace Call Call.Answer)}
    {t : Trace Call Call.Answer} {c : Call} {a : c.Answer}
    (h : w.Accounted l (before ++ t :: after)) (huse : LimiterUse t c)
    (hserve : w.serve W l before.length c a w') (hown : w.RefundsOwn l before.length c a) :
    w'.Accounted l (before ++ (t ++ [⟨c, a⟩]) :: after) := by
  cases c with
  | allow key limits => exact h.allow huse hserve
  | refund key => exact h.refund huse hserve hown
  | _ =>
    obtain ⟨m, -, rfl⟩ := hserve
    exact ⟨fun n key hn => (h.recorded n key hn).call, fun n key hn => (h.refunded n key hn).call,
      h.balanced⟩

/-- **Hits are charges less refunds.**  Any number of sends over one limiter that
fails open, with any of its calls missing Redis: as long as each refund that
reaches Redis is that of a send that recorded a hit, or finds no hit to take, the
hits stored under a key are those of the sends that recorded one and were not
refunded.  Any other refund breaks this at once. -/
theorem refunds_balance (L : Libraries) (W : Object → Prop) (keyPrefix : Bytes)
    (g : Pool (LimitedWorld M) Request Call Call.Answer Result)
    (hg : Pool.ReachesBy (fun n w c a w' => w.serve W ⟨keyPrefix, true⟩ n c a w' ∧
      w.RefundsOwn ⟨keyPrefix, true⟩ n c a) (send L) .start g) (key : Bytes) :
    (g.shared.hits ⟨keyPrefix, true⟩ key : Int) =
        g.shared.recordedOn key - g.shared.refundedOn key ∧
      ∀ n a w', g.shared.serve W ⟨keyPrefix, true⟩ n (.refund key) a w' →
        ¬ g.shared.RefundsOwn ⟨keyPrefix, true⟩ n (.refund key) a →
        (w'.hits ⟨keyPrefix, true⟩ key : Int) ≠ w'.recordedOn key - w'.refundedOn key := by
  obtain ⟨haccounted, -⟩ := hg.keeps (P := fun _ => True) (G := fun _ => LimiterUse)
    (Q := fun _ _ _ => True) LimitedWorld.Accounted.start (fun _ _ h => h.started)
    (fun req before t after w c a w' h huse hserve =>
      ⟨h.serve huse hserve.1 hserve.2, trivial⟩) fun req => send_uses
  have hbalanced := haccounted.balanced key
  refine ⟨by omega, fun n a w' hserve hother => ?_⟩
  have hless := LimitedWorld.unbalanced_refund hbalanced hserve hother
  omega

section Outage

/-- The limiter as configured by default, but failing open. -/
def outageLimiter : RedisLimiter := ⟨lit "sigillum:rl:", true⟩

/-- The world of the relay, with `outcome` for a send.  `Allow` reaches Redis if
`reaches` says so and nothing is stored yet, `Refund` as long as the key lives. -/
def outageAnswer (n : Nat) (reaches : Bool) (outcome : Except Err SendResult)
    (w : LimitedWorld Nat) : (c : Call) → c.Answer × LimitedWorld Nat
  | .allow key limits =>
    if reaches && (w.redis (outageLimiter.keyPrefix ++ key)).isNone then
      w.allow outageLimiter n key limits (.up (0, 0))
    else w.allow outageLimiter n key limits (.down (.new (lit "i/o timeout")))
  | .refund key =>
    if (w.redis (outageLimiter.keyPrefix ++ key)).expiry.all fun e => decide (0 < e) then
      w.refund outageLimiter n key (.up 0)
    else w.refund outageLimiter n key (.down (.new (lit "i/o timeout")))
  | .send _ => (outcome, w)
  | c => ((relayAnswer w.cache c).1, { w with cache := (relayAnswer w.cache c).2 })

theorem outageAnswer_serve (n : Nat) (reaches : Bool) (outcome : Except Err SendResult)
    (w : LimitedWorld Nat) (c : Call) :
    w.serve RelayObjects outageLimiter n c (outageAnswer n reaches outcome w c).1
      (outageAnswer n reaches outcome w c).2 := by
  cases c with
  | allow key limits =>
    simp only [outageAnswer]
    split
    · rename_i hup
      have hnone := Option.isNone_iff_eq_none.mp (Bool.and_eq_true_iff.mp hup).2
      refine ⟨.up (0, 0), ⟨?_, ?_⟩, rfl⟩
      · rw [hnone]
        rfl
      · rw [hnone]
        exact List.not_mem_nil
    · exact ⟨.down _, trivial, rfl⟩
  | refund key =>
    simp only [outageAnswer]
    split
    · rename_i hup
      refine ⟨.up 0, ?_, rfl⟩
      rcases live_cases (scriptNow 0) (w.redis (outageLimiter.keyPrefix ++ key)) with
        ⟨hlive, -⟩ | ⟨-, e, he, hle⟩
      · exact hlive
      · rw [Option.mem_def.mp he] at hup
        exact absurd hle (not_le.mpr (of_decide_eq_true hup))
    · exact ⟨.down _, trivial, rfl⟩
  | send msg => exact ⟨w.cache, rfl, rfl⟩
  | _ => exact ⟨_, relayAnswer_answers w.cache _, rfl⟩

/-- A send whose charge is stored and whose message is accepted. -/
def chargedRun : LimitedWorld Nat × Trace Call Call.Answer × Result :=
  (send .plain relayRequest).run (outageAnswer 0 true (.ok ⟨lit "250 queued", 0⟩)) .start []

/-- The refund of a send that recorded nothing takes the hit of one that was not
refunded: the first send is charged and accepted, the second is let through during
an outage and fails after it. -/
theorem refund_takes_another_hit :
    ∃ g : Pool (LimitedWorld Nat) Request Call Call.Answer Result,
      Pool.ReachesBy (fun n w c a w' => w.serve RelayObjects outageLimiter n c a w')
        (send .plain) .start g ∧
      g.shared.recordedOn (limiterKey relayPolicy) = 1 ∧
      g.shared.refundedOn (limiterKey relayPolicy) = 0 ∧
      g.shared.hits outageLimiter (limiterKey relayPolicy) = 0 := by
  have hcharged : Pool.ReachesBy (fun n w c a w' => w.serve RelayObjects outageLimiter n c a w')
      (send .plain) .start ⟨chargedRun.1,
        [⟨relayRequest, chargedRun.2.1, .pure chargedRun.2.2⟩]⟩ :=
    Pool.ReachesBy.run (outageAnswer_serve 0 true (.ok ⟨lit "250 queued", 0⟩)) .refl relayRequest
  exact ⟨_, Pool.ReachesBy.run
    (outageAnswer_serve 1 false (.error (.new (lit "connection reset by peer"))))
    hcharged relayRequest, by decide +kernel⟩

/-- As `outageAnswer`, where the refund of a send that recorded nothing is lost. -/
def ownAnswer (n : Nat) (outcome : Except Err SendResult) (w : LimitedWorld Nat) :
    (c : Call) → c.Answer × LimitedWorld Nat
  | .refund key =>
    if (n, key) ∈ w.recorded then outageAnswer n true outcome w (.refund key)
    else w.refund outageLimiter n key (.down (.new (lit "i/o timeout")))
  | c => outageAnswer n true outcome w c

theorem ownAnswer_serve (n : Nat) (outcome : Except Err SendResult) (w : LimitedWorld Nat)
    (c : Call) :
    w.serve RelayObjects outageLimiter n c (ownAnswer n outcome w c).1 (ownAnswer n outcome w c).2 ∧
      w.RefundsOwn outageLimiter n c (ownAnswer n outcome w c).1 := by
  cases c with
  | refund key =>
    simp only [ownAnswer]
    split
    · rename_i hrecorded
      exact ⟨outageAnswer_serve n true outcome w _, fun _ => .inl hrecorded⟩
    · exact ⟨⟨.down _, trivial, rfl⟩, fun h => absurd h (by simp [LimitedWorld.refund,
        RedisLimiter.refund])⟩
  | _ => exact ⟨outageAnswer_serve n true outcome w _, trivial⟩

/-- A send that is charged, fails and is refunded. -/
def refundedRun : LimitedWorld Nat × Trace Call Call.Answer × Result :=
  (send .plain relayRequest).run
    (ownAnswer 0 (.error (.new (lit "connection reset by peer")))) .start []

theorem refunds_balance_refundedRun :
    refundedRun.1.recordedOn (limiterKey relayPolicy) = 1 ∧
      (refundedRun.1.hits outageLimiter (limiterKey relayPolicy) : Int) =
        refundedRun.1.recordedOn (limiterKey relayPolicy) -
          refundedRun.1.refundedOn (limiterKey relayPolicy) := by
  have hreach : Pool.ReachesBy (fun n w c a w' => w.serve RelayObjects outageLimiter n c a w' ∧
      w.RefundsOwn outageLimiter n c a) (send .plain) .start ⟨refundedRun.1,
        [⟨relayRequest, refundedRun.2.1, .pure refundedRun.2.2⟩]⟩ :=
    Pool.ReachesBy.run (ownAnswer_serve 0 (.error (.new (lit "connection reset by peer"))))
      .refl relayRequest
  exact ⟨by decide +kernel, (refunds_balance .plain RelayObjects _ _ hreach _).1⟩

end Outage

end Gateway
end Sigillum
