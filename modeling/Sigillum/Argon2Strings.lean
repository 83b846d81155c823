import Sigillum.Credential
import Sigillum.TransferEncodings
import Mathlib.Data.List.Perm.Basic

/-! # Argon2id strings

The PHC strings that `ParseArgon2id` accepts, and those that `HashArgon2id` writes
(`internal/credential/credential.go`).

`parseArgon2id_eq_ok` says which strings are accepted and what for: three `Parameter`s in
any order, whose numbers fit, and two fields in Base64.  The bounds of what one login may
cost and the round trip are read off it, and that no NUL byte stands in such a string.
-/
namespace Sigillum
namespace Credential
open Runes Bytes TextCodecs TransferEncodings WordEncoder

/-! ## Writing -/

/-- A PHC string of three fields. -/
def phcString (params salt key : Bytes) : Bytes :=
  lit "$argon2id$v=19$" ++ params ++ lit "$" ++ salt ++ lit "$" ++ key

/-- `k=v`. -/
def parameterText (k v : Bytes) : Bytes := k ++ 61 :: v

/-- The parameters in the order of `HashArgon2id`. -/
def argon2Parameters (memoryKiB time threads : Nat) : List Bytes :=
  [parameterText (lit "m") (num memoryKiB), parameterText (lit "t") (num time),
    parameterText (lit "p") (num threads)]

/-- `HashArgon2id`. -/
def hashArgon2id (L : CredentialLibraries) (password salt : Bytes)
    (memoryKiB time threads : Nat) : Bytes :=
  let key := L.idKey password salt time memoryKiB threads 32
  lit "$argon2id$v=19$m=" ++ num memoryKiB ++ lit ",t=" ++ num time ++ lit ",p=" ++
    num threads ++ lit "$" ++ rawStdEncoding.encode salt ++ lit "$" ++ rawStdEncoding.encode key

theorem hashArgon2id_eq (L : CredentialLibraries) (password salt : Bytes)
    (memoryKiB time threads : Nat) :
    hashArgon2id L password salt memoryKiB time threads =
      phcString ([44].intercalate (argon2Parameters memoryKiB time threads))
        (rawStdEncoding.encode salt)
        (rawStdEncoding.encode (L.idKey password salt time memoryKiB threads 32)) := by
  have hm : lit "$argon2id$v=19$m=" = lit "$argon2id$v=19$" ++ lit "m" ++ [61] := by decide
  have ht : lit ",t=" = [44] ++ lit "t" ++ [61] := by decide
  have hp : lit ",p=" = [44] ++ lit "p" ++ [61] := by decide
  simp [hashArgon2id, phcString, argon2Parameters, parameterText, hm, ht, hp,
    List.intercalate_cons_cons]

/-! ## Parameters -/

/-- A parameter with a known key and a number that its field holds. -/
structure Parameter where
  key : Bytes
  value : Bytes
  number : Nat
  known : key ∈ [lit "m", lit "t", lit "p"]
  reads : parseUint 32 value = some number
  narrow : key = lit "p" → number ≤ 255

namespace Parameter

def text (e : Parameter) : Bytes := parameterText e.key e.value

/-- The parameters with the number of `e` in its field. -/
def assign (p : Argon2Params) (e : Parameter) : Argon2Params :=
  if e.key = lit "m" then { p with memoryKiB := e.number }
  else if e.key = lit "t" then { p with time := e.number }
  else { p with threads := e.number }

/-- What the field of a key holds. -/
def field (p : Argon2Params) (k : Bytes) : Nat :=
  if k = lit "m" then p.memoryKiB else if k = lit "t" then p.time else p.threads

theorem keys_ne : lit "t" ≠ lit "m" ∧ lit "p" ≠ lit "m" ∧ lit "p" ≠ lit "t" := by decide

theorem key_cases (e : Parameter) : e.key = lit "m" ∨ e.key = lit "t" ∨ e.key = lit "p" := by
  simpa using e.known

theorem field_assign (p : Argon2Params) (e : Parameter) : field (assign p e) e.key = e.number := by
  rcases e.key_cases with hk | hk | hk <;> simp [field, assign, hk, keys_ne]

theorem field_assign_of_ne (p : Argon2Params) {e f : Parameter} (h : f.key ≠ e.key) :
    field (assign p e) f.key = field p f.key := by
  rcases e.key_cases with hk | hk | hk <;> rcases f.key_cases with hf | hf | hf <;>
    simp_all [field, assign, keys_ne]

/-- A field holds the number of the parameter with its key. -/
theorem field_foldl_assign {es : List Parameter} (hkeys : (es.map key).Nodup) {e : Parameter}
    (he : e ∈ es) (p : Argon2Params) : field (es.foldl assign p) e.key = e.number := by
  -- a field without a parameter in the rest keeps its number
  have hkept : ∀ (es : List Parameter) (p : Argon2Params), (∀ f ∈ es, e.key ≠ f.key) →
      field (es.foldl assign p) e.key = field p e.key := by
    intro es
    induction es with
    | nil => exact fun _ _ => rfl
    | cons f es ih =>
      intro p hne
      rw [List.foldl_cons, ih _ fun g hg => hne g (List.mem_cons_of_mem f hg),
        field_assign_of_ne p (hne f List.mem_cons_self)]
  induction es generalizing p with
  | nil => cases he
  | cons f es ih =>
    rw [List.map_cons, List.nodup_cons] at hkeys
    rw [List.foldl_cons]
    rcases List.mem_cons.mp he with rfl | he
    · rw [hkept es _ fun g hg hsame => hkeys.1 (hsame ▸ List.mem_map_of_mem hg), field_assign]
    · exact ih hkeys.2 he _

/-- Without an equals sign in the key, the text is cut there. -/
theorem cut_text (e : Parameter) : cut 61 e.text = some (e.key, e.value) := by
  have hkey : (61 : UInt8) ∉ e.key := by
    rcases e.key_cases with hk | hk | hk <;> rw [hk] <;> decide
  exact cut_eq_some.mpr ⟨rfl, hkey⟩

/-- No separator stands in a parameter, and no NUL byte. -/
theorem notMem_text (e : Parameter) {c : UInt8} (hc : c ∈ [0, 36, 44]) : c ∉ e.text := by
  have hother : c ∉ lit "m" ∧ c ∉ lit "t" ∧ c ∉ lit "p" ∧ c ≠ 61 ∧ isDigit c = false := by
    revert c
    decide
  obtain ⟨hm, ht, hp, hequals, hdigit⟩ := hother
  rw [text, parameterText, List.mem_append, List.mem_cons]
  rintro (hmem | hmem | hmem)
  · rcases e.key_cases with hk | hk | hk <;> rw [hk] at hmem
    · exact hm hmem
    · exact ht hmem
    · exact hp hmem
  · exact hequals hmem
  · rw [isDigit_of_parseUint e.reads c hmem] at hdigit
    cases hdigit

/-- The parameter that writes a number. -/
def ofNumber (k : Bytes) (n : Nat) (known : k ∈ [lit "m", lit "t", lit "p"])
    (small : n < 2 ^ 32) (narrow : k = lit "p" → n ≤ 255) : Parameter :=
  ⟨k, num n, n, known, parseUint_numeral small, narrow⟩

end Parameter

/-! ## The loop -/

section Loop
variable {L : CredentialLibraries} {params : Bytes}

/-- **One parameter is accepted** if its key is known and new and its number fits; the
conversions then change nothing. -/
theorem argon2Param_eq_ok {acc acc' : List Bytes × Argon2Params} {kv : Bytes} :
    argon2Param L params acc kv = .ok acc' ↔ ∃ e : Parameter, kv = e.text ∧ e.key ∉ acc.1 ∧
      acc' = (e.key :: acc.1, Parameter.assign acc.2 e) := by
  constructor
  · intro h
    unfold argon2Param at h
    split at h
    · cases h
    · rename_i k v hcut
      obtain ⟨rfl, -⟩ := cut_eq_some.mp hcut
      split at h
      · cases h
      · rename_i hnew
        split at h
        · cases h
        · rename_i n hn
          have hsmall : n % 2 ^ 32 = n := Nat.mod_eq_of_lt (lt_of_parseUint hn)
          split at h
          · rename_i hk
            refine ⟨⟨k, v, n, by simp [hk], hn, fun hp => absurd (hk.symm.trans hp) (by decide)⟩,
              rfl, hnew, ?_⟩
            rw [← Except.ok.inj h, Parameter.assign, if_pos hk, hsmall]
          · rename_i hm
            split at h
            · rename_i hk
              refine ⟨⟨k, v, n, by simp [hk], hn, fun hp => absurd (hk.symm.trans hp) (by decide)⟩,
                rfl, hnew, ?_⟩
              rw [← Except.ok.inj h, Parameter.assign, if_neg hm, if_pos hk, hsmall]
            · rename_i ht
              split at h
              · rename_i hk
                split at h
                · cases h
                · rename_i hnarrow
                  refine ⟨⟨k, v, n, by simp [hk], hn, fun _ => not_lt.mp hnarrow⟩, rfl, hnew, ?_⟩
                  rw [← Except.ok.inj h, Parameter.assign, if_neg hm, if_neg ht,
                    Nat.mod_eq_of_lt (by omega : n < 2 ^ 8)]
              · cases h
  · rintro ⟨e, rfl, hnew, rfl⟩
    rw [argon2Param, e.cut_text]
    dsimp only
    rw [if_neg hnew, e.reads]
    have hsmall : e.number % 2 ^ 32 = e.number := Nat.mod_eq_of_lt (lt_of_parseUint e.reads)
    dsimp only
    rcases e.key_cases with hk | hk | hk
    · rw [if_pos hk, Parameter.assign, if_pos hk, hsmall]
    · have hm : e.key ≠ lit "m" := fun h => absurd (hk.symm.trans h) (by decide)
      rw [if_neg hm, if_pos hk, Parameter.assign, if_neg hm, if_pos hk, hsmall]
    · have hm : e.key ≠ lit "m" := fun h => absurd (hk.symm.trans h) (by decide)
      have ht : e.key ≠ lit "t" := fun h => absurd (hk.symm.trans h) (by decide)
      have hnarrow := e.narrow hk
      rw [if_neg hm, if_neg ht, if_pos hk, if_neg (not_lt.mpr hnarrow), Parameter.assign,
        if_neg hm, if_neg ht, Nat.mod_eq_of_lt (by omega : e.number < 2 ^ 8)]

/-- The loop accepts parameters with different keys, and fills their fields. -/
theorem foldlM_argon2Param_eq_ok {kvs : List Bytes} {acc acc' : List Bytes × Argon2Params} :
    kvs.foldlM (argon2Param L params) acc = .ok acc' ↔ ∃ es : List Parameter,
      kvs = es.map Parameter.text ∧ (es.map Parameter.key).Nodup ∧
      (∀ e ∈ es, e.key ∉ acc.1) ∧
      acc' = ((es.map Parameter.key).reverse ++ acc.1, es.foldl Parameter.assign acc.2) := by
  induction kvs generalizing acc with
  | nil =>
    constructor
    · intro h
      exact ⟨[], rfl, List.nodup_nil, fun _ he => absurd he List.not_mem_nil,
        (Except.ok.inj h).symm⟩
    · rintro ⟨es, hes, -, -, rfl⟩
      obtain rfl := List.map_eq_nil_iff.mp hes.symm
      rfl
  | cons kv kvs ih =>
    rw [List.foldlM_cons, bind_eq_ok]
    constructor
    · rintro ⟨mid, hstep, hrest⟩
      obtain ⟨e, rfl, hnew, rfl⟩ := argon2Param_eq_ok.mp hstep
      obtain ⟨es, rfl, hkeys, hfresh, rfl⟩ := ih.mp hrest
      refine ⟨e :: es, rfl, ?_, ?_, ?_⟩
      · rw [List.map_cons, List.nodup_cons]
        refine ⟨fun hmem => ?_, hkeys⟩
        obtain ⟨f, hf, hsame⟩ := List.mem_map.mp hmem
        exact hfresh f hf (hsame ▸ List.mem_cons_self)
      · exact List.forall_mem_cons.mpr
          ⟨hnew, fun f hf hmem => hfresh f hf (List.mem_cons_of_mem _ hmem)⟩
      · simp
    · rintro ⟨es, hes, hkeys, hfresh, rfl⟩
      obtain ⟨e, es, rfl, rfl, rfl⟩ := List.map_eq_cons_iff.mp hes.symm
      rw [List.map_cons, List.nodup_cons] at hkeys
      obtain ⟨hnew, hfresh⟩ := List.forall_mem_cons.mp hfresh
      refine ⟨_, argon2Param_eq_ok.mpr ⟨e, rfl, hnew, rfl⟩,
        ih.mpr ⟨es, rfl, hkeys.2, fun f hf hmem => ?_, by simp⟩⟩
      rcases List.mem_cons.mp hmem with hsame | hmem
      · exact hkeys.1 (hsame ▸ List.mem_map_of_mem hf)
      · exact hfresh f hf hmem

end Loop

/-! ## Accepted strings -/

/-- The bounds of the parameters. -/
structure CostBounds (p : Argon2Params) : Prop where
  memory : argon2MinMemoryKiB ≤ p.memoryKiB ∧ p.memoryKiB ≤ argon2MaxMemoryKiB
  time : 1 ≤ p.time ∧ p.time ≤ argon2MaxTime
  memoryTime : argon2MinMemoryTimeKiB ≤ p.memoryKiB * p.time
  threads : 1 ≤ p.threads ∧ p.threads ≤ argon2MaxThreads

/-- The product of memory and time does not overflow where it is looked at. -/
theorem memory_mul_time_mod {memoryKiB time : Nat} (hmem : memoryKiB ≤ argon2MaxMemoryKiB)
    (htime : time ≤ argon2MaxTime) : memoryKiB * time % 2 ^ 64 = memoryKiB * time := by
  have hle : memoryKiB * time ≤ 65536 * 10 := Nat.mul_le_mul hmem htime
  exact Nat.mod_eq_of_lt (by omega)

theorem argon2Bounds_eq_ok {p : Argon2Params} {u : Unit} :
    argon2Bounds p = .ok u ↔ CostBounds p := by
  unfold argon2Bounds
  simp only [bind_eq_ok, refuse_eq_ok, exists_const, not_or, not_lt]
  constructor
  · rintro ⟨hmem, htime, hproduct, hthreads⟩
    rw [memory_mul_time_mod hmem.2 htime.2] at hproduct
    exact ⟨hmem, htime, hproduct, hthreads⟩
  · rintro ⟨hmem, htime, hproduct, hthreads⟩
    rw [memory_mul_time_mod hmem.2 htime.2]
    exact ⟨hmem, htime, hproduct, hthreads⟩

theorem argon2Field_eq_ok {bad : Nat → Prop} [DecidablePred bad] {text s out : Bytes} :
    argon2Field bad text s = .ok out ↔ decodeB64 s = some out ∧ ¬ bad out.length := by
  unfold argon2Field
  cases decodeB64 s with
  | none => simp
  | some out' =>
    dsimp only
    rw [Option.some.injEq]
    split
    · rename_i hbad
      refine iff_of_false (fun h => by cases h) ?_
      rintro ⟨rfl, hgood⟩
      exact hgood hbad
    · rename_i hgood
      rw [Except.ok.injEq]
      exact ⟨fun h => ⟨h, h ▸ hgood⟩, And.left⟩

theorem argon2Salt_eq_ok {s salt : Bytes} :
    argon2Salt s = .ok salt ↔ decodeB64 s = some salt ∧ argon2MinSaltLen ≤ salt.length := by
  rw [argon2Salt, argon2Field_eq_ok, not_lt]

theorem argon2Key_eq_ok {s key : Bytes} :
    argon2Key s = .ok key ↔ decodeB64 s = some key ∧
      argon2MinKeyLen ≤ key.length ∧ key.length ≤ argon2MaxKeyLen := by
  rw [argon2Key, argon2Field_eq_ok, not_or, not_lt, not_lt]

/-- What is accepted: the parameters and the two fields of a string, and what they say. -/
structure Accepted (es : List Parameter) (saltText keyText : Bytes) (p : Argon2Params) :
    Prop where
  keys : (es.map Parameter.key).Perm [lit "m", lit "t", lit "p"]
  numbers : ∀ e ∈ es, Parameter.field p e.key = e.number
  cost : CostBounds p
  salt : decodeB64 saltText = some p.salt ∧ argon2MinSaltLen ≤ p.salt.length
  key : decodeB64 keyText = some p.key ∧
    argon2MinKeyLen ≤ p.key.length ∧ p.key.length ≤ argon2MaxKeyLen

/-- The fields between the separators. -/
def phcFields (es : List Parameter) (saltText keyText : Bytes) : List Bytes :=
  [[], lit "argon2id", lit "v=19", [44].intercalate (es.map Parameter.text), saltText, keyText]

/-- The parameters are cut where they were joined. -/
theorem splitOn_intercalate_text {es : List Parameter} (h : es ≠ []) :
    ([44].intercalate (es.map Parameter.text)).splitOn 44 = es.map Parameter.text := by
  refine List.splitOn_intercalate 44 ?_ (by simpa using h)
  intro text htext
  obtain ⟨e, -, rfl⟩ := List.mem_map.mp htext
  exact e.notMem_text (by decide)

theorem notMem_intercalate_text {es : List Parameter} (h : es ≠ []) {c : UInt8}
    (hc : c ∈ [0, 36]) : c ∉ [44].intercalate (es.map Parameter.text) := by
  intro hmem
  rcases mem_splitOn 44 hmem with rfl | ⟨text, htext, hmem⟩
  · exact absurd hc (by decide)
  · rw [splitOn_intercalate_text h] at htext
    obtain ⟨e, -, rfl⟩ := List.mem_map.mp htext
    exact e.notMem_text (List.mem_append_left [44] hc) hmem

theorem ne_nil_of_keys {es : List Parameter}
    (h : (es.map Parameter.key).Perm [lit "m", lit "t", lit "p"]) : es ≠ [] := by
  rintro rfl
  exact absurd h.length_eq (by decide)

/-- The numbers of the parameters are all there is to know. -/
theorem eq_foldl_assign {es : List Parameter} {p : Argon2Params}
    (hkeys : (es.map Parameter.key).Perm [lit "m", lit "t", lit "p"])
    (hnumbers : ∀ e ∈ es, Parameter.field p e.key = e.number) :
    { es.foldl Parameter.assign ⟨0, 0, 0, [], []⟩ with salt := p.salt, key := p.key } = p := by
  have hnodup : (es.map Parameter.key).Nodup := hkeys.nodup_iff.mpr (by decide)
  have hsame : ∀ k ∈ [lit "m", lit "t", lit "p"],
      Parameter.field (es.foldl Parameter.assign ⟨0, 0, 0, [], []⟩) k = Parameter.field p k := by
    intro k hk
    obtain ⟨e, he, rfl⟩ := List.mem_map.mp (hkeys.mem_iff.mpr hk)
    rw [Parameter.field_foldl_assign hnodup he, hnumbers e he]
  have hm := hsame (lit "m") (by decide)
  have ht := hsame (lit "t") (by decide)
  have hp := hsame (lit "p") (by decide)
  simp only [Parameter.field, if_pos, if_neg Parameter.keys_ne.1, if_neg Parameter.keys_ne.2.1,
    if_neg Parameter.keys_ne.2.2] at hm ht hp
  dsimp only
  rw [hm, ht, hp]

/-- Different keys are the three there are, if none of these is missing. -/
theorem perm_keys_iff {es : List Parameter} (hnodup : (es.map Parameter.key).Nodup) :
    (es.map Parameter.key).Perm [lit "m", lit "t", lit "p"] ↔
      lit "m" ∈ es.map Parameter.key ∧ lit "t" ∈ es.map Parameter.key ∧
        lit "p" ∈ es.map Parameter.key := by
  constructor
  · intro hperm
    exact ⟨hperm.mem_iff.mpr (by simp), hperm.mem_iff.mpr (by simp), hperm.mem_iff.mpr (by simp)⟩
  · rintro ⟨hm, ht, hp⟩
    refine (List.perm_ext_iff_of_nodup hnodup (by decide)).mpr fun k => ⟨fun hk => ?_, fun hk => ?_⟩
    · obtain ⟨e, -, rfl⟩ := List.mem_map.mp hk
      exact e.known
    · simp only [List.mem_cons, List.not_mem_nil, or_false] at hk
      rcases hk with rfl | rfl | rfl
      · exact hm
      · exact ht
      · exact hp

/-- **Which strings are accepted, and what for.** -/
theorem parseArgon2id_eq_ok {L : CredentialLibraries} {phc : Bytes} {p : Argon2Params} :
    parseArgon2id L phc = .ok p ↔ ∃ es saltText keyText,
      phc.splitOn 36 = phcFields es saltText keyText ∧ Accepted es saltText keyText p := by
  constructor
  · intro h
    unfold parseArgon2id at h
    split at h
    · rename_i alg version params saltText keyText hsplit
      obtain ⟨_, halg, h⟩ := bind_eq_ok.mp h
      obtain ⟨_, hversion, h⟩ := bind_eq_ok.mp h
      obtain ⟨⟨seen, q⟩, hparams, h⟩ := bind_eq_ok.mp h
      obtain ⟨_, hrequired, h⟩ := bind_eq_ok.mp h
      obtain ⟨_, hcost, h⟩ := bind_eq_ok.mp h
      obtain ⟨salt, hsalt, h⟩ := bind_eq_ok.mp h
      obtain ⟨key, hkey, h⟩ := bind_eq_ok.mp h
      obtain rfl := Except.ok.inj h
      obtain rfl : alg = lit "argon2id" := not_not.mp (refuse_eq_ok.mp halg)
      obtain rfl : version = lit "v=19" := not_not.mp (refuse_eq_ok.mp hversion)
      obtain ⟨es, htexts, hnodup, -, hloop⟩ := foldlM_argon2Param_eq_ok.mp hparams
      obtain ⟨rfl, rfl⟩ := Prod.mk.inj hloop
      have hcost := argon2Bounds_eq_ok.mp hcost
      have hseen := refuse_eq_ok.mp hrequired
      simp only [not_or, not_not, List.append_nil, List.mem_reverse] at hseen
      have hkeys := (perm_keys_iff hnodup).mpr hseen
      refine ⟨es, saltText, keyText, ?_, hkeys, ?_, ⟨hcost.1, hcost.2, hcost.3, hcost.4⟩,
        argon2Salt_eq_ok.mp hsalt, argon2Key_eq_ok.mp hkey⟩
      · rw [hsplit, phcFields, ← htexts, List.intercalate_splitOn]
      · exact fun e he => Parameter.field_foldl_assign hnodup he _
    · split at h <;> cases h
  · rintro ⟨es, saltText, keyText, hsplit, hkeys, hnumbers, hcost, hsalt, hkey⟩
    have hnodup : (es.map Parameter.key).Nodup := hkeys.nodup_iff.mpr (by decide)
    have hp := eq_foldl_assign hkeys hnumbers
    have hloop : (([44].intercalate (es.map Parameter.text)).splitOn 44).foldlM
        (argon2Param L ([44].intercalate (es.map Parameter.text))) ([], ⟨0, 0, 0, [], []⟩) =
        .ok ((es.map Parameter.key).reverse ++ [],
          es.foldl Parameter.assign ⟨0, 0, 0, [], []⟩) :=
      foldlM_argon2Param_eq_ok.mpr ⟨es, splitOn_intercalate_text (ne_nil_of_keys hkeys), hnodup,
        fun _ _ => List.not_mem_nil, rfl⟩
    have hcost' : CostBounds (es.foldl Parameter.assign ⟨0, 0, 0, [], []⟩) := by
      rw [← hp] at hcost
      exact ⟨hcost.1, hcost.2, hcost.3, hcost.4⟩
    rw [parseArgon2id, hsplit, phcFields]
    refine bind_eq_ok.mpr ⟨(), refuse_eq_ok.mpr (not_not.mpr rfl), ?_⟩
    refine bind_eq_ok.mpr ⟨(), refuse_eq_ok.mpr (not_not.mpr rfl), ?_⟩
    refine bind_eq_ok.mpr ⟨_, hloop, ?_⟩
    refine bind_eq_ok.mpr ⟨(), refuse_eq_ok.mpr ?_, ?_⟩
    · simp only [not_or, not_not, List.append_nil, List.mem_reverse]
      exact (perm_keys_iff hnodup).mp hkeys
    · refine bind_eq_ok.mpr ⟨(), argon2Bounds_eq_ok.mpr hcost', ?_⟩
      refine bind_eq_ok.mpr ⟨_, argon2Salt_eq_ok.mpr hsalt, ?_⟩
      refine bind_eq_ok.mpr ⟨_, argon2Key_eq_ok.mpr hkey, ?_⟩
      exact congrArg Except.ok hp

theorem zero_notMem_of_decodeB64 {s out : Bytes} (h : decodeB64 s = some out) : 0 ∉ s := by
  intro hzero
  have hparts : 0 ∈ s.rdropWhile (· == 61) ++ s.rtakeWhile (· == 61) := by
    rwa [List.rdropWhile_append_rtakeWhile]
  rcases List.mem_append.mp hparts with hkept | hdropped
  · exact absurd (mem_rawBase64Decode h 0 hkept) (by decide)
  · exact absurd (List.mem_rtakeWhile_imp hdropped) (by decide)

/-- A PHC string that parses has no NUL byte. -/
theorem zero_notMem_of_parseArgon2id {L : CredentialLibraries} {phc : Bytes} {p : Argon2Params}
    (h : parseArgon2id L phc = .ok p) : 0 ∉ phc := by
  obtain ⟨es, saltText, keyText, hsplit, haccepted⟩ := parseArgon2id_eq_ok.mp h
  intro hmem
  rcases mem_splitOn 36 hmem with hdollar | ⟨part, hpart, hmem⟩
  · cases hdollar
  · simp only [hsplit, phcFields, List.mem_cons, List.not_mem_nil, or_false] at hpart
    rcases hpart with rfl | rfl | rfl | rfl | rfl | rfl
    · cases hmem
    · exact absurd hmem (by decide)
    · exact absurd hmem (by decide)
    · exact notMem_intercalate_text (ne_nil_of_keys haccepted.keys) (by decide) hmem
    · exact zero_notMem_of_decodeB64 haccepted.salt.1 hmem
    · exact zero_notMem_of_decodeB64 haccepted.key.1 hmem

/-! ## Reading back -/

/-- Base64 without padding is read as it was written, and holds no separator. -/
theorem decodeB64_encode (s : Bytes) :
    decodeB64 (rawStdEncoding.encode s) = some s ∧ 36 ∉ rawStdEncoding.encode s := by
  have hdecode := rawBase64Decode_encode s
  have hchars := mem_rawBase64Decode hdecode
  constructor
  · rw [decodeB64, List.rdropWhile_eq_self_iff.mpr, hdecode]
    intro hne hlast
    have hpad := hchars _ (List.getLast_mem hne)
    rw [beq_iff_eq.mp hlast] at hpad
    exact absurd hpad (by decide)
  · intro hmem
    exact absurd (hchars 36 hmem) (by decide)

/-- A string is its fields with separators between them. -/
theorem phcString_eq (es : List Parameter) (saltText keyText : Bytes) :
    phcString ([44].intercalate (es.map Parameter.text)) saltText keyText =
      [36].intercalate (phcFields es saltText keyText) := by
  have hhead : lit "$argon2id$v=19$" =
      [36] ++ lit "argon2id" ++ [36] ++ lit "v=19" ++ [36] := by decide
  have hdollar : lit "$" = [36] := by decide
  simp [phcString, phcFields, hhead, hdollar, List.intercalate_cons_cons]

theorem splitOn_phcString {es : List Parameter} (hes : es ≠ []) {saltText keyText : Bytes}
    (hsalt : 36 ∉ saltText) (hkey : 36 ∉ keyText) :
    (phcString ([44].intercalate (es.map Parameter.text)) saltText keyText).splitOn 36 =
      phcFields es saltText keyText := by
  rw [phcString_eq, List.splitOn_intercalate 36 _ (by simp [phcFields])]
  simp only [phcFields, List.forall_mem_cons]
  exact ⟨by decide, by decide, by decide, notMem_intercalate_text hes (by decide), hsalt, hkey,
    by simp⟩

/-- The parameters that `HashArgon2id` writes, in any order. -/
theorem exists_parameters {memoryKiB time threads : Nat} {salt key : Bytes} {kvs : List Bytes}
    (hcost : CostBounds ⟨memoryKiB, time, threads, salt, key⟩)
    (hkvs : kvs.Perm (argon2Parameters memoryKiB time threads)) :
    ∃ es : List Parameter, kvs = es.map Parameter.text ∧
      (es.map Parameter.key).Perm [lit "m", lit "t", lit "p"] ∧
      ∀ e ∈ es, Parameter.field ⟨memoryKiB, time, threads, salt, key⟩ e.key = e.number := by
  have hmemory : memoryKiB ≤ 65536 := hcost.memory.2
  have htime : time ≤ 10 := hcost.time.2
  have hthreads : threads ≤ 16 := hcost.threads.2
  let written : List Parameter :=
    [.ofNumber (lit "m") memoryKiB (by decide) (by omega) (fun h => absurd h (by decide)),
      .ofNumber (lit "t") time (by decide) (by omega) (fun h => absurd h (by decide)),
      .ofNumber (lit "p") threads (by decide) (by omega) (fun _ => by omega)]
  have hcomp : Relation.Comp (· = List.map Parameter.text ·) List.Perm kvs written := by
    rw [List.eq_map_comp_perm]
    exact hkvs
  obtain ⟨es, rfl, hes⟩ := hcomp
  refine ⟨es, rfl, hes.map Parameter.key, fun e he => ?_⟩
  have hwritten : e ∈ written := hes.mem_iff.mp he
  simp only [written, List.mem_cons, List.not_mem_nil, or_false] at hwritten
  rcases hwritten with rfl | rfl | rfl <;> rfl

/-- A string with the parameters in any order is accepted for what they say. -/
theorem parseArgon2id_phcString (L : CredentialLibraries) {p : Argon2Params} {kvs : List Bytes}
    (hcost : CostBounds p) (hsalt : argon2MinSaltLen ≤ p.salt.length)
    (hkey : argon2MinKeyLen ≤ p.key.length ∧ p.key.length ≤ argon2MaxKeyLen)
    (hkvs : kvs.Perm (argon2Parameters p.memoryKiB p.time p.threads)) :
    parseArgon2id L (phcString ([44].intercalate kvs) (rawStdEncoding.encode p.salt)
      (rawStdEncoding.encode p.key)) = .ok p := by
  obtain ⟨es, rfl, hkeys, hnumbers⟩ := exists_parameters hcost hkvs
  obtain ⟨hsaltText, hsaltSep⟩ := decodeB64_encode p.salt
  obtain ⟨hkeyText, hkeySep⟩ := decodeB64_encode p.key
  exact parseArgon2id_eq_ok.mpr ⟨es, _, _,
    splitOn_phcString (ne_nil_of_keys hkeys) hsaltSep hkeySep, hkeys, hnumbers, hcost,
    ⟨hsaltText, hsalt⟩, hkeyText, hkey⟩

/-- What an accepted string has promised. -/
structure Exact (phc : Bytes) (p : Argon2Params) : Prop where
  cost : CostBounds p
  salt : argon2MinSaltLen ≤ p.salt.length
  key : argon2MinKeyLen ≤ p.key.length ∧ p.key.length ≤ argon2MaxKeyLen
  /-- The numerals of the string are the parameters, with nothing cut off. -/
  numbers : ∃ (kvs : List Bytes) (m t q saltText keyText : Bytes),
    phc = phcString ([44].intercalate kvs) saltText keyText ∧
    kvs.Perm [parameterText (lit "m") m, parameterText (lit "t") t, parameterText (lit "p") q] ∧
    parseUint 32 m = some p.memoryKiB ∧ parseUint 32 t = some p.time ∧
    parseUint 32 q = some p.threads ∧
    decodeB64 saltText = some p.salt ∧ decodeB64 keyText = some p.key
  /-- Nor does the product overflow. -/
  product : p.memoryKiB * p.time % 2 ^ 64 = p.memoryKiB * p.time

/-- Three parameters with the three keys are one for each key. -/
theorem perm_of_keys {es : List Parameter} {p : Argon2Params}
    (hkeys : (es.map Parameter.key).Perm [lit "m", lit "t", lit "p"])
    (hnumbers : ∀ e ∈ es, Parameter.field p e.key = e.number) :
    ∃ m t q : Bytes, (es.map Parameter.text).Perm
        [parameterText (lit "m") m, parameterText (lit "t") t, parameterText (lit "p") q] ∧
      parseUint 32 m = some p.memoryKiB ∧ parseUint 32 t = some p.time ∧
      parseUint 32 q = some p.threads := by
  have hcomp : Relation.Comp (· = List.map Parameter.key ·) List.Perm
      [lit "m", lit "t", lit "p"] es := by
    rw [List.eq_map_comp_perm]
    exact hkeys.symm
  obtain ⟨sorted, hsorted, hperm⟩ := hcomp
  obtain ⟨a, rest, rfl, ha, hrest⟩ := List.map_eq_cons_iff.mp hsorted.symm
  obtain ⟨b, rest, rfl, hb, hrest⟩ := List.map_eq_cons_iff.mp hrest
  obtain ⟨c, rest, rfl, hc, hrest⟩ := List.map_eq_cons_iff.mp hrest
  obtain rfl := List.map_eq_nil_iff.mp hrest
  have hnumber : ∀ e ∈ [a, b, c], parseUint 32 e.value = some (Parameter.field p e.key) := by
    intro e he
    rw [hnumbers e (hperm.mem_iff.mp he), e.reads]
  refine ⟨a.value, b.value, c.value, ?_, ?_, ?_, ?_⟩
  · rw [← ha, ← hb, ← hc]
    exact (hperm.map Parameter.text).symm
  · have h := hnumber a (by simp)
    rwa [ha] at h
  · have h := hnumber b (by simp)
    rwa [hb] at h
  · have h := hnumber c (by simp)
    rwa [hc] at h

/-- **Argon2id strings are parsed exactly and within bounds.**  An accepted string says
what is returned, and that is within the bounds; what `HashArgon2id` writes is read back,
also with its parameters in another order. -/
theorem argon2id_exact (L : CredentialLibraries)
    (hlen : ∀ password salt time memoryKiB threads keyLen,
      (L.idKey password salt time memoryKiB threads keyLen).length = keyLen) :
    (∀ phc p, parseArgon2id L phc = .ok p → Exact phc p) ∧
    ∀ (password : Bytes) (p : Argon2Params),
      p.key = L.idKey password p.salt p.time p.memoryKiB p.threads 32 →
      argon2MinSaltLen ≤ p.salt.length → CostBounds p →
        parseArgon2id L (hashArgon2id L password p.salt p.memoryKiB p.time p.threads) = .ok p ∧
        ∀ kvs, kvs.Perm (argon2Parameters p.memoryKiB p.time p.threads) →
          parseArgon2id L (phcString ([44].intercalate kvs) (rawStdEncoding.encode p.salt)
            (rawStdEncoding.encode p.key)) = .ok p := by
  refine ⟨fun phc p h => ?_, fun password p hp hsalt hcost => ?_⟩
  · obtain ⟨es, saltText, keyText, hsplit, hkeys, hnumbers, hcost, hsalt, hkey⟩ :=
      parseArgon2id_eq_ok.mp h
    obtain ⟨m, t, q, hperm, hm, ht, hq⟩ := perm_of_keys hkeys hnumbers
    have hphc : phc = phcString ([44].intercalate (es.map Parameter.text)) saltText keyText := by
      rw [phcString_eq, ← hsplit, List.intercalate_splitOn]
    exact ⟨hcost, hsalt.2, hkey.2,
      ⟨_, m, t, q, saltText, keyText, hphc, hperm, hm, ht, hq, hsalt.1, hkey.1⟩,
      memory_mul_time_mod hcost.memory.2 hcost.time.2⟩
  · have hkey : argon2MinKeyLen ≤ p.key.length ∧ p.key.length ≤ argon2MaxKeyLen := by
      rw [hp, hlen]
      decide
    refine ⟨?_, fun kvs hkvs => parseArgon2id_phcString L hcost hsalt hkey hkvs⟩
    rw [hashArgon2id_eq, ← hp]
    exact parseArgon2id_phcString L hcost hsalt hkey (List.Perm.refl _)

/-- The stand-in key is as long as it is asked for. -/
theorem argon2id_exact_plain :
    ∃ p, parseArgon2id .plain (hashArgon2id .plain (lit "secret") (lit "saltsalt") 19456 2 1) =
      .ok p ∧ p.memoryKiB = 19456 ∧ p.time = 2 ∧ p.threads = 1 ∧ p.salt = lit "saltsalt" := by
  have hlen : ∀ password salt time memoryKiB threads keyLen,
      (CredentialLibraries.plain.idKey password salt time memoryKiB threads keyLen).length =
        keyLen := by
    intros
    simp [CredentialLibraries.plain]
  have h := (argon2id_exact .plain hlen).2 (lit "secret")
    ⟨19456, 2, 1, lit "saltsalt", CredentialLibraries.plain.idKey (lit "secret") (lit "saltsalt")
      2 19456 1 32⟩ rfl (by decide) ⟨by decide, by decide, by decide, by decide⟩
  exact ⟨_, h.1, rfl, rfl, rfl, rfl⟩

end Credential
end Sigillum
