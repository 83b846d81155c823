import Sigillum.GatewaySafety

/-! # The validity cache is not seen

`validityCache.check` in `internal/gateway/validity.go` on its own: any number of calls, on
any objects, whose locked sections interleave in any way.  Each returns what `validate`
returns for its object, whatever the others have stored meanwhile, and the cache stays
within its bound (`check_transparent`).

The one assumption is that of the source: the UID and the generation of an object
determine whether it is valid.
-/
namespace Sigillum
namespace Gateway
open Interaction

/-- UID and generation determine the validity of the objects that are looked up. -/
def Determined (L : Libraries) (W : Object → Prop) : Prop :=
  ∀ a b, W a → W b → a.Stored → a.uid = b.uid → a.generation = b.generation →
    a.validity L = b.validity L

/-- Calls of `check` at once, over one cache that was empty. -/
def Checks (L : Libraries) (W : Object → Prop)
    (pool : Pool ValidityCache { o : Object // W o } Call Call.Answer (Option InvalidObject)) :
    Prop :=
  Pool.Reaches (answers W) (fun o => check L o.val) ∅ pool

/-- What holds of the cache between two locked sections. -/
structure CacheInvariant (L : Libraries) (W : Object → Prop) (m : ValidityCache) : Prop where
  sound : m.Sound L W
  bounded : m.entries.length ≤ maxValidityEntries

/-- What a lookup is answered with. -/
def LooksUp (L : Libraries) (W : Object → Prop) : Event Call Call.Answer → Prop
  | ⟨.lookup uid, v⟩ => ∀ o v', W o → o.Stored → o.uid = uid → v = some v' →
      o.generation = v'.generation → v'.err = o.validity L
  | _ => True

/-- What a call of `check` does next: one of two locked sections. -/
def Enters (L : Libraries) (o : Object) (t : Trace Call Call.Answer) (c : Call) : Prop :=
  t.length < 2 ∧ o.Stored ∧
    (c = .lookup o.uid ∨ c = .store o.uid ⟨o.generation, o.validity L⟩)

section Cache
variable {L : Libraries} {W : Object → Prop} {m : ValidityCache}

theorem length_store_le (m : ValidityCache) (uid : Bytes) (v : Validity) :
    (m.store uid v).entries.length ≤ maxValidityEntries := by
  have hinsert : ∀ m' : ValidityCache, m'.entries.length < maxValidityEntries →
      (m'.insert uid v).entries.length ≤ maxValidityEntries := by
    intro m' hm'
    rw [AList.entries_insert, List.length_cons]
    exact Nat.succ_le_of_lt ((List.kerase_sublist uid m'.entries).length_le.trans_lt hm')
  unfold ValidityCache.store
  split
  · exact hinsert ∅ (by decide)
  · rename_i hroom
    exact hinsert m (not_le.mp hroom)

/-- **A locked section keeps the cache right**, and a lookup is answered rightly. -/
theorem CacheInvariant.serve (hW : Determined L W) (hm : CacheInvariant L W m) {o : Object}
    (ho : W o) {t : Trace Call Call.Answer} {c : Call} (hc : Enters L o t c) {a : c.Answer}
    {m' : ValidityCache} (h : answers W m c a m') :
    CacheInvariant L W m' ∧ LooksUp L W ⟨c, a⟩ := by
  obtain ⟨-, hstored, rfl | rfl⟩ := hc
  · obtain ⟨rfl, rfl⟩ : a = m.lookup o.uid ∧ m' = m := h
    refine ⟨hm, fun o' v ho' hstored' huid hv hgen => ?_⟩
    -- the entry was made for an object with the same UID and generation
    obtain ⟨first, hfirst, -, huid', hgen', herr⟩ := hm.sound o.uid v hv
    rw [herr]
    exact (hW o' first ho' hfirst hstored' (huid.trans huid'.symm) (hgen.trans hgen'.symm)).symm
  · obtain rfl : m' = m.store o.uid ⟨o.generation, o.validity L⟩ := h
    exact ⟨⟨hm.sound.store ⟨o, ho, hstored, rfl, rfl, rfl⟩, length_store_le ..⟩, trivial⟩

/-- One call, from a lookup that is answered rightly. -/
theorem check_enters {o : Object} (ho : W o) :
    (check L o).Keeps (LooksUp L W) (Enters L o) (fun _ v => v = o.validity L) [] := by
  unfold check
  split
  · exact Prog.keeps_pure.mpr rfl
  · rename_i hstored
    have hstored : o.Stored := not_or.mp hstored
    refine Prog.keeps_call.mpr ⟨⟨by decide, hstored, .inl rfl⟩, fun v hv => ?_⟩
    cases hknown : v.filter fun v => v.generation = o.generation with
    | some v' =>
      obtain ⟨hsome, hgen⟩ := Option.filter_eq_some_iff.mp hknown
      exact Prog.keeps_pure.mpr (hv o v' ho hstored rfl hsome (of_decide_eq_true hgen).symm)
    | none =>
      refine Prog.keeps_call.mpr ⟨⟨by simp, hstored, .inr rfl⟩, fun _ _ => ?_⟩
      exact Prog.keeps_pure.mpr rfl

end Cache

/-- **The validity cache is transparent.**  In every state of any number of calls at once,
the cache is within its bound; a call that has returned has returned the validity of its
object; and the others are not yet through their second locked section. -/
theorem check_transparent (L : Libraries) (W : Object → Prop) (hW : Determined L W)
    (pool : Pool ValidityCache { o : Object // W o } Call Call.Answer (Option InvalidObject))
    (hpool : Checks L W pool) :
    pool.shared.entries.length ≤ maxValidityEntries ∧
      ∀ th ∈ pool.threads,
        (∀ v, th.rest = .pure v → v = th.input.val.validity L) ∧
          ((∃ v, th.rest = .pure v) ∨ th.done.length < 2) := by
  obtain ⟨hinvariant, hthreads⟩ := hpool.keeps (I := CacheInvariant L W)
    (G := fun o => Enters L o.val) (Q := fun o _ v => v = o.val.validity L)
    ⟨ValidityCache.sound_empty, Nat.zero_le _⟩
    (fun o _ _ _ _ _ hm hc h => hm.serve hW o.property hc h)
    (fun o => check_enters o.property)
  refine ⟨hinvariant.bounded, fun th hth => ?_⟩
  obtain ⟨-, hrest⟩ := hthreads th hth
  cases hcase : th.rest with
  | pure v =>
    rw [hcase] at hrest
    refine ⟨fun v' hv' => ?_, .inl ⟨v, rfl⟩⟩
    obtain rfl := Prog.pure.inj hv'
    exact hrest
  | call c next =>
    rw [hcase] at hrest
    refine ⟨fun v hv => ?_, .inr hrest.1.1⟩
    cases hv

theorem Versioned.determined {L : Libraries} {W : Object → Prop} (hW : Versioned W) :
    Determined L W :=
  fun a b ha hb hstored huid hgen =>
    Object.validity_withoutStatus (hW a b ha hb hstored huid hgen)

/-- A check of a policy with a cache. -/
def relayCheck (m : ValidityCache) :
    ValidityCache × Trace Call Call.Answer × Option InvalidObject :=
  (check .plain (.policy relayPolicy)).run relayAnswer m []

/-- The second check of a policy finds what the first has stored. -/
theorem check_transparent_twice :
    (relayCheck (relayCheck ∅).1).2.1.length = 1 ∧
      (relayCheck (relayCheck ∅).1).2.2 = (Object.policy relayPolicy).validity .plain ∧
      (relayCheck (relayCheck ∅).1).1.entries.length ≤ maxValidityEntries := by
  have hstart : Pool.Reaches (answers RelayObjects)
      (fun o : { o : Object // RelayObjects o } => check .plain o.val) ∅ ⟨∅, []⟩ := .refl
  have hfirst := Pool.ReachesBy.run relayAnswer_answers hstart ⟨.policy relayPolicy, .inl rfl⟩
  have hsecond := Pool.ReachesBy.run relayAnswer_answers hfirst ⟨.policy relayPolicy, .inl rfl⟩
  obtain ⟨hbound, hthreads⟩ := check_transparent .plain RelayObjects
    relayObjects_versioned.determined _ hsecond
  exact ⟨by decide +kernel, (hthreads _ (List.mem_append_right _ List.mem_cons_self)).1 _ rfl,
    hbound⟩

end Gateway
end Sigillum
