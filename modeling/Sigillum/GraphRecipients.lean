import Sigillum.Submission

/-! # Recipients of Microsoft Graph

`prepare` in `internal/driver/graph/recipients.go`.  Graph has no envelope: it
delivers to the To, Cc and Bcc fields of the message.  So every To and Cc address
has to be an envelope recipient, and the recipients in neither field go into a Bcc
field in front of the message.

The field written is read back as the recipients it was made of
(`readMessage_bccField`), but of several To or Cc fields only the first is
compared with the envelope; `delivers_envelope_iff` says what follows.
-/
namespace Sigillum
open Runes Bytes HeaderBlock

/-- `permanent`. -/
def permanent (text : Bytes) : Err :=
  ⟨Sentinel.upstreamPermanent.text ++ lit ": " ++ text, [.upstreamPermanent], 0⟩

/-- The error for a header address outside the envelope. -/
def notInEnvelope (field address : Bytes) : Err :=
  ⟨Sentinel.upstreamPermanent.text ++ lit ": " ++ Sentinel.recipientNotInEnvelope.text ++
      lit ": " ++ field ++ lit " " ++ address,
    [.upstreamPermanent, .recipientNotInEnvelope], 0⟩

/-- The Bcc field for blind copies, one address a line. -/
def bccField (blind : List Bytes) : Bytes :=
  lit "Bcc: " ++ List.intercalate (lit ",\r\n ") blind ++ lit "\r\n"

section Prepare
variable (L : Libraries)

/-- What addresses are compared by. -/
def addressKey (address : Bytes) : Bytes := L.unicode.toLower address

/-- Whether a recipient is a bare addr-spec. -/
def isBare (r : Bytes) : Bool :=
  match L.parseAddress r with
  | .error _ => false
  | .ok a => a.name == [] && a.address == r

/-- The loop that fills `inEnvelope`. -/
def envelopeKeys (envelope : List Bytes) : Except Err (List Bytes) :=
  match envelope.find? fun r => !isBare L r with
  | some r => .error (permanent (lit "invalid envelope recipient " ++ quote L.unicode r))
  | none => .ok (envelope.map (addressKey L))

/-- The loop over the addresses of a field. -/
def listAddresses (inEnvelope : List Bytes) (field : Bytes) (listed : List Bytes) :
    List Address → Except Err (List Bytes)
  | [] => .ok listed
  | a :: as =>
    if addressKey L a.address ∈ inEnvelope then
      listAddresses inEnvelope field (addressKey L a.address :: listed) as
    else .error (notInEnvelope field a.address)

/-- The loop over the fields, for one of them. -/
def listField (h : List HeaderBlock.Field) (inEnvelope listed : List Bytes) (field : Bytes) :
    Except Err (List Bytes) :=
  match addressList L h field with
  | .error .notPresent => .ok listed
  | .error (.parse err) =>
    .error (permanent (lit "cannot parse the " ++ field ++ lit " field: " ++ err.text))
  | .ok addrs => listAddresses L inEnvelope field listed addrs

/-- The loop that collects the recipients not `listed` in the header, each once. -/
def blindCopies (listed : List Bytes) : List Bytes → List Bytes
  | [] => []
  | r :: rs =>
    if addressKey L r ∈ listed then blindCopies listed rs
    else r :: blindCopies (addressKey L r :: listed) rs

/-- `prepare`: the message to send and its From address. -/
def prepare (raw : Bytes) (envelope : List Bytes) : Except Err (Bytes × Bytes) :=
  match readMessage raw with
  | .error err => .error (permanent (lit "cannot parse the message header: " ++ err))
  | .ok m =>
    if 0 < (values m.header (lit "Bcc")).length ∨
        0 < (values m.header (lit "Resent-Bcc")).length then
      .error (permanent (lit "the message still carries a Bcc field"))
    else match addressList L m.header (lit "From") with
    | .ok [sender] => do
      let inEnvelope ← envelopeKeys L envelope
      let listed ← [lit "To", lit "Cc"].foldlM (listField L m.header inEnvelope) []
      let blind := blindCopies L listed envelope
      if blind.length = 0 then .ok (raw, sender.address)
      else .ok (bccField blind ++ raw, sender.address)
    | _ => .error (permanent (lit "the message needs exactly one From address"))

/-! ## Who is delivered to -/

/-- The keys of the addresses in a value. -/
def valueKeys (value : Bytes) : List Bytes := (addressesOf L value).map (addressKey L)

/-- The keys Graph delivers to: those in all To, Cc and Bcc fields. -/
def deliveredTo (raw : Bytes) : List Bytes :=
  match readMessage raw with
  | .error _ => []
  | .ok m =>
    [lit "To", lit "Cc", lit "Bcc"].flatMap fun field =>
      (values m.header field).flatMap (valueKeys L)

/-- The keys in the To and Cc fields that another one of their name precedes. -/
def repeatedFields (raw : Bytes) : List Bytes :=
  match readMessage raw with
  | .error _ => []
  | .ok m =>
    [lit "To", lit "Cc"].flatMap fun field => (values m.header field).tail.flatMap (valueKeys L)

end Prepare

/-! ## What is accepted -/

section Accepted
variable {L : Libraries}

theorem addressesOf_nil : addressesOf L [] = [] := by
  unfold addressesOf
  split
  · rfl
  · rename_i hparse
    exact absurd hparse (L.parseAddressList_nil _)

theorem parseAddress_of_isBare {r : Bytes} (h : isBare L r = true) :
    L.parseAddress r = .ok ⟨[], r⟩ := by
  unfold isBare at h
  split at h
  · cases h
  · rename_i a hparse
    obtain ⟨name, address⟩ := a
    obtain ⟨rfl, rfl⟩ : name = [] ∧ address = r := by simpa using h
    exact hparse

theorem envelopeKeys_eq_ok {envelope keys : List Bytes} (h : envelopeKeys L envelope = .ok keys) :
    keys = envelope.map (addressKey L) ∧ ∀ r ∈ envelope, L.parseAddress r = .ok ⟨[], r⟩ := by
  unfold envelopeKeys at h
  split at h
  · cases h
  · rename_i hfind
    refine ⟨(Except.ok.inj h).symm, fun r hr => parseAddress_of_isBare ?_⟩
    simpa using List.find?_eq_none.mp hfind r hr

/-- The addresses of a field are envelope recipients, and are listed. -/
theorem listAddresses_eq_ok {inEnvelope listed listed' : List Bytes} {field : Bytes}
    {addrs : List Address} (h : listAddresses L inEnvelope field listed addrs = .ok listed') :
    (∀ a ∈ addrs, addressKey L a.address ∈ inEnvelope) ∧
      ∀ k, k ∈ listed' ↔ k ∈ listed ∨ k ∈ addrs.map fun a => addressKey L a.address := by
  induction addrs generalizing listed with
  | nil =>
    obtain rfl := Except.ok.inj h
    exact ⟨nofun, fun k => by simp⟩
  | cons a as ih =>
    rw [listAddresses] at h
    split at h
    · rename_i ha
      obtain ⟨has, hlisted⟩ := ih h
      refine ⟨List.forall_mem_cons.mpr ⟨ha, has⟩, fun k => ?_⟩
      rw [hlisted, List.map_cons, List.mem_cons, List.mem_cons]
      tauto
    · cases h

/-- Of each field the first value is compared with the envelope. -/
theorem listField_eq_ok {h : List HeaderBlock.Field} {inEnvelope listed listed' : List Bytes}
    {field : Bytes} (hok : listField L h inEnvelope listed field = .ok listed') :
    (∀ k ∈ ((values h field).take 1).flatMap (valueKeys L), k ∈ inEnvelope) ∧
      ∀ k, k ∈ listed' ↔ k ∈ listed ∨ k ∈ ((values h field).take 1).flatMap (valueKeys L) := by
  have hfirst : ((values h field).take 1).flatMap (valueKeys L) =
      valueKeys L (headerGet h field) := by
    unfold headerGet
    cases values h field with
    | nil => simp [valueKeys, addressesOf_nil]
    | cons v vs => simp
  rw [hfirst]
  unfold listField addressList at hok
  by_cases hempty : headerGet h field = []
  · rw [if_pos hempty] at hok
    obtain rfl := Except.ok.inj hok
    have hnone : valueKeys L (headerGet h field) = [] := by
      rw [hempty, valueKeys, addressesOf_nil]
      rfl
    rw [hnone]
    exact ⟨nofun, fun k => by simp⟩
  · rw [if_neg hempty] at hok
    cases hparse : L.parseAddressList (headerGet h field) with
    | error err =>
      rw [hparse] at hok
      cases hok
    | ok addrs =>
      rw [hparse] at hok
      obtain ⟨hin, hlisted⟩ := listAddresses_eq_ok hok
      have hkeys : valueKeys L (headerGet h field) = addrs.map fun a => addressKey L a.address := by
        rw [valueKeys, addressesOf, hparse, List.map_map]
        rfl
      rw [hkeys]
      exact ⟨by simpa using hin, hlisted⟩

theorem foldlM_listField_eq_ok {h : List HeaderBlock.Field} {inEnvelope listed listed' : List Bytes}
    {fields : List Bytes} (hok : fields.foldlM (listField L h inEnvelope) listed = .ok listed') :
    (∀ field ∈ fields, ∀ k ∈ ((values h field).take 1).flatMap (valueKeys L), k ∈ inEnvelope) ∧
      ∀ k, k ∈ listed' ↔
        k ∈ listed ∨ ∃ field ∈ fields, k ∈ ((values h field).take 1).flatMap (valueKeys L) := by
  induction fields generalizing listed with
  | nil =>
    obtain rfl := Except.ok.inj hok
    exact ⟨nofun, fun k => by simp⟩
  | cons field fields ih =>
    rw [List.foldlM_cons, bind_eq_ok] at hok
    obtain ⟨listed₁, hfield, hfields⟩ := hok
    obtain ⟨hin, hlisted⟩ := listField_eq_ok hfield
    obtain ⟨hin', hlisted'⟩ := ih hfields
    refine ⟨List.forall_mem_cons.mpr ⟨hin, hin'⟩, fun k => ?_⟩
    rw [hlisted', hlisted, or_assoc, List.exists_mem_cons_iff]

theorem mem_of_mem_blindCopies {listed envelope : List Bytes} {r : Bytes}
    (h : r ∈ blindCopies L listed envelope) : r ∈ envelope := by
  induction envelope generalizing listed with
  | nil => cases h
  | cons s rs ih =>
    rw [blindCopies] at h
    split at h
    · exact List.mem_cons_of_mem _ (ih h)
    · rcases List.mem_cons.mp h with rfl | h
      · exact List.mem_cons_self
      · exact List.mem_cons_of_mem _ (ih h)

/-- The blind copies are the envelope recipients that are not listed. -/
theorem mem_keys_blindCopies (listed envelope : List Bytes) (k : Bytes) :
    k ∈ (blindCopies L listed envelope).map (addressKey L) ↔
      k ∈ envelope.map (addressKey L) ∧ k ∉ listed := by
  induction envelope generalizing listed with
  | nil => simp [blindCopies]
  | cons r rs ih =>
    rw [blindCopies]
    split
    · rename_i hr
      rw [ih, List.map_cons, List.mem_cons]
      constructor
      · exact fun ⟨hk, hnot⟩ => ⟨.inr hk, hnot⟩
      · rintro ⟨rfl | hk, hnot⟩
        · exact absurd hr hnot
        · exact ⟨hk, hnot⟩
    · rename_i hr
      rw [List.map_cons, List.mem_cons, ih, List.map_cons, List.mem_cons, List.mem_cons]
      constructor
      · rintro (rfl | ⟨hk, hnot⟩)
        · exact ⟨.inl rfl, hr⟩
        · exact ⟨.inr hk, fun hmem => hnot (.inr hmem)⟩
      · rintro ⟨hk, hnot⟩
        by_cases hkr : k = addressKey L r
        · exact .inl hkr
        · exact .inr ⟨hk.resolve_left hkr, fun hmem => hmem.elim hkr hnot⟩

/-- What holds of a message that `prepare` accepts. -/
structure Prepared (L : Libraries) (raw : Bytes) (envelope : List Bytes) (m : HeaderBlock.Message)
    (blind : List Bytes) (out : Bytes) : Prop where
  read : readMessage raw = .ok m
  noBcc : values m.header (lit "Bcc") = []
  bare : ∀ r ∈ envelope, L.parseAddress r = .ok ⟨[], r⟩
  inEnvelope : ∀ field ∈ [lit "To", lit "Cc"],
    ∀ k ∈ ((values m.header field).take 1).flatMap (valueKeys L), k ∈ envelope.map (addressKey L)
  sub : ∀ r ∈ blind, r ∈ envelope
  keys : ∀ k, k ∈ blind.map (addressKey L) ↔ k ∈ envelope.map (addressKey L) ∧
    ¬ ∃ field ∈ [lit "To", lit "Cc"], k ∈ ((values m.header field).take 1).flatMap (valueKeys L)
  out : out = if blind.length = 0 then raw else bccField blind ++ raw

theorem prepare_eq_ok {raw out sender : Bytes} {envelope : List Bytes}
    (h : prepare L raw envelope = .ok (out, sender)) :
    ∃ m blind, Prepared L raw envelope m blind out := by
  unfold prepare at h
  split at h
  · cases h
  · rename_i m hread
    split at h
    · cases h
    · rename_i hbcc
      split at h
      · rw [bind_eq_ok] at h
        obtain ⟨inEnvelope, hkeys, h⟩ := h
        rw [bind_eq_ok] at h
        obtain ⟨listed, hfields, h⟩ := h
        obtain ⟨rfl, hbare⟩ := envelopeKeys_eq_ok hkeys
        obtain ⟨hin, hlisted⟩ := foldlM_listField_eq_ok hfields
        refine ⟨m, blindCopies L listed envelope, hread, ?_, hbare, hin,
          fun r hr => mem_of_mem_blindCopies hr, fun k => ?_, ?_⟩
        · exact List.length_eq_zero_iff.mp (Nat.eq_zero_of_not_pos fun hpos => hbcc (.inl hpos))
        · rw [mem_keys_blindCopies, hlisted]
          simp
        · dsimp only at h
          split at h
          · rename_i hnone
            rw [if_pos hnone]
            exact (Prod.mk.inj (Except.ok.inj h)).1.symm
          · rename_i hsome
            rw [if_neg hsome]
            exact (Prod.mk.inj (Except.ok.inj h)).1.symm
      · cases h

end Accepted

/-! ## The field written -/

/-- The recipients of a Bcc field as they stand on its lines: a comma after each but
the last. -/
def commaParts : List Bytes → List Bytes
  | [] => []
  | [r] => [r]
  | r :: rs => (r ++ [44]) :: commaParts rs

section Written

theorem intercalate_commaParts (sep : Bytes) (rs : List Bytes) :
    List.intercalate sep (commaParts rs) = List.intercalate (44 :: sep) rs := by
  fun_induction commaParts rs with
  | case1 => rfl
  | case2 r => simp
  | case3 r rs hne ih =>
    obtain ⟨r', rs', rfl⟩ := List.exists_cons_of_ne_nil hne
    rw [List.intercalate_cons_cons, ← ih]
    cases rs' with
    | nil => simp [commaParts]
    | cons r'' rs' => simp [commaParts, List.intercalate_cons_cons]

/-- A part of a Bcc field, on one line of it. -/
def IsPart (q : Bytes) : Prop := q ≠ [] ∧ ∀ c ∈ [32, 9, 13, 10], c ∉ q

theorem isPart_commaParts {rs : List Bytes} (h : ∀ r ∈ rs, IsPart r) :
    ∀ q ∈ commaParts rs, IsPart q := by
  fun_induction commaParts rs with
  | case1 => nofun
  | case2 r => exact h
  | case3 r rs hne ih =>
    obtain ⟨hr, hrs⟩ := List.forall_mem_cons.mp h
    refine List.forall_mem_cons.mpr ⟨⟨by simp, fun c hc hmem => ?_⟩, ih hrs⟩
    rcases List.mem_append.mp hmem with hmem | hmem
    · exact hr.2 c hc hmem
    · rw [List.mem_singleton.mp hmem] at hc
      revert hc
      decide

section Part
variable {p : Bytes}

theorem IsPart.isWSP_eq_false (h : IsPart p) {c : UInt8} (hc : c ∈ p) : isWSP c = false := by
  by_contra hwsp
  simp only [isWSP, Bool.not_eq_false, Bool.or_eq_true, beq_iff_eq] at hwsp
  rcases hwsp with rfl | rfl
  · exact h.2 32 (by decide) hc
  · exact h.2 9 (by decide) hc

theorem IsPart.lf_notMem (h : IsPart p) : 10 ∉ p := h.2 10 (by decide)

/-- A part on its line is not trimmed, whatever starts the line. -/
theorem IsPart.trim_append (h : IsPart p) (start : Bytes) (hstart : start.head?.any isWSP = false) :
    trim (start ++ p) = start ++ p := by
  refine trim_eq_self (fun c hc => ?_) fun c hc => ?_
  · cases start with
    | nil => exact h.isWSP_eq_false (List.mem_of_head? hc)
    | cons d start =>
      obtain rfl := Option.some.inj hc
      exact hstart
  · rw [List.getLast?_append_of_ne_nil _ h.1] at hc
    exact h.isWSP_eq_false (List.mem_of_getLast? hc)

end Part

/-- The lines of a Bcc field with the parts `p :: ps`. -/
def bccLines (p : Bytes) (ps : List Bytes) : RawField :=
  ⟨lit "Bcc: " ++ p ++ [13, 10], ps.map fun q => 32 :: q ++ [13, 10]⟩

theorem bccField_eq {blind : List Bytes} {p : Bytes} {ps : List Bytes}
    (h : commaParts blind = p :: ps) :
    bccField blind = ((bccLines p ps).first :: (bccLines p ps).more).flatten := by
  have hshift : ∀ ps : List Bytes, ps.flatMap (lit "\r\n " ++ ·) ++ lit "\r\n" =
      [13, 10] ++ (ps.map fun q => 32 :: q ++ [13, 10]).flatten := by
    intro ps
    induction ps with
    | nil => rfl
    | cons q ps ih =>
      rw [List.flatMap_cons, List.append_assoc, ih, List.map_cons, List.flatten_cons]
      simp [show lit "\r\n " = [13, 10, 32] by decide]
  have hsep : lit ",\r\n " = 44 :: lit "\r\n " := by decide
  rw [bccField, hsep, ← intercalate_commaParts, h, intercalate_eq_flatMap, List.append_assoc,
    List.append_assoc, hshift, bccLines, List.flatten_cons]
  simp

theorem unfold_bccLines {p : Bytes} {ps : List Bytes} (h : ∀ q ∈ p :: ps, IsPart q) :
    (bccLines p ps).unfold = lit "Bcc: " ++ List.intercalate [32] (p :: ps) := by
  obtain ⟨hp, hps⟩ := List.forall_mem_cons.mp h
  have hfirst : trim (chomp (lit "Bcc: " ++ p ++ [13, 10])) = lit "Bcc: " ++ p := by
    have hlf : 10 ∉ lit "Bcc: " ++ p := by
      rw [List.mem_append, not_or]
      exact ⟨by decide, hp.lf_notMem⟩
    rw [chomp_crlf hlf, hp.trim_append _ (by decide)]
  have hmore : ∀ q ∈ ps, (32 :: trim (chomp (32 :: q ++ [13, 10])) : Bytes) = [32] ++ q := by
    intro q hq
    have hlf : 10 ∉ 32 :: q := by simpa using (hps q hq).lf_notMem
    have htrim : trim q = q := (hps q hq).trim_append [] rfl
    rw [chomp_crlf hlf, trim_cons_of_isWSP (by decide), htrim]
    rfl
  rw [RawField.unfold, bccLines, hfirst, intercalate_eq_flatMap, List.append_assoc,
    List.flatMap_map,
    List.flatMap_congr hmore]

/-- **The Bcc field is read back.**  In front of a message it is a field of its own, and
its value lists the recipients it was made of. -/
theorem readMessage_bccField {blind : List Bytes} {raw : Bytes} {m : HeaderBlock.Message}
    (hne : blind ≠ []) (hparts : ∀ r ∈ blind, IsPart r) (h : readMessage raw = .ok m) :
    readMessage (bccField blind ++ raw) =
      .ok ⟨⟨lit "Bcc", List.intercalate [44, 32] blind⟩ :: m.header, m.body⟩ := by
  obtain ⟨p, ps, hpart⟩ : ∃ p ps, commaParts blind = p :: ps := by
    refine List.exists_cons_of_ne_nil fun hnil => hne ?_
    cases blind with
    | nil => rfl
    | cons r rs => cases rs <;> cases hnil
  have hall : ∀ q ∈ p :: ps, IsPart q := hpart ▸ isPart_commaParts hparts
  obtain ⟨hp, hps⟩ := List.forall_mem_cons.mp hall
  have hvalue : List.intercalate [32] (p :: ps) = List.intercalate [44, 32] blind := by
    rw [← hpart, intercalate_commaParts]
  have hparse : parseField (bccLines p ps).unfold =
      some ⟨lit "Bcc", List.intercalate [44, 32] blind⟩ := by
    have hcut : cut 58 (lit "Bcc: " ++ List.intercalate [32] (p :: ps)) =
        some (lit "Bcc", 32 :: List.intercalate [32] (p :: ps)) := cut_eq_some.mpr ⟨rfl, by decide⟩
    have hdrop : (32 :: List.intercalate [32] (p :: ps)).dropWhile isWSP =
        List.intercalate [32] (p :: ps) := by
      obtain ⟨c, s, hcs⟩ := List.exists_cons_of_ne_nil hp.1
      have hc : isWSP c = false := hp.isWSP_eq_false (hcs ▸ List.mem_cons_self)
      rw [List.dropWhile_cons_of_pos (by decide), intercalate_eq_flatMap, hcs, List.cons_append,
        List.dropWhile_cons_of_neg (by simp [hc])]
    rw [unfold_bccLines hall, parseField, hcut, Option.map_some]
    dsimp only
    rw [hdrop, hvalue]
  have hlines : ∀ q ∈ ps, 10 ∉ 32 :: q := fun q hq => by simpa using (hps q hq).lf_notMem
  have hlf : 10 ∉ lit "Bcc: " ++ p := by
    rw [List.mem_append, not_or]
    exact ⟨by decide, hp.lf_notMem⟩
  have hname : canonicalKey (lit "Bcc") ≠ [] := by decide
  rw [bccField_eq hpart]
  refine readMessage_append ?_ ?_ rfl ?_ hparse hname h
  · refine List.forall_mem_cons.mpr ⟨isLine_crlf hlf, fun l hl => ?_⟩
    obtain ⟨q, hq, rfl⟩ := List.mem_map.mp hl
    exact isLine_crlf (hlines q hq)
  · refine List.forall_mem_cons.mpr ⟨isBlank_crlf (by simp [lit]), fun l hl => ?_⟩
    obtain ⟨q, hq, rfl⟩ := List.mem_map.mp hl
    exact isBlank_crlf (List.cons_ne_nil _ _)
  · intro l hl
    obtain ⟨q, hq, rfl⟩ := List.mem_map.mp hl
    rfl

end Written

/-! ## Delivery -/

section Delivery
variable {L : Libraries} {raw out : Bytes} {envelope blind : List Bytes} {m : HeaderBlock.Message}

theorem mem_flatMap_values {fields : List Bytes} {h : List HeaderBlock.Field} {k : Bytes} :
    (k ∈ fields.flatMap fun field => (values h field).flatMap (valueKeys L)) ↔
      (∃ field ∈ fields, k ∈ ((values h field).take 1).flatMap (valueKeys L)) ∨
        k ∈ fields.flatMap fun field => (values h field).tail.flatMap (valueKeys L) := by
  have hsplit : ∀ field, k ∈ (values h field).flatMap (valueKeys L) ↔
      k ∈ ((values h field).take 1).flatMap (valueKeys L) ∨
        k ∈ (values h field).tail.flatMap (valueKeys L) := by
    intro field
    rw [← List.mem_append, ← List.flatMap_append, ← List.drop_one, List.take_append_drop]
  simp only [List.mem_flatMap (l := fields), hsplit]
  constructor
  · rintro ⟨field, hfield, hk | hk⟩
    · exact .inl ⟨field, hfield, hk⟩
    · exact .inr ⟨field, hfield, hk⟩
  · rintro (⟨field, hfield, hk⟩ | ⟨field, hfield, hk⟩)
    · exact ⟨field, hfield, .inl hk⟩
    · exact ⟨field, hfield, .inr hk⟩

/-- The value of the Bcc field written lists the blind copies. -/
theorem valueKeys_intercalate (hne : blind ≠ [])
    (hbare : ∀ r ∈ blind, L.parseAddress r = .ok ⟨[], r⟩) :
    valueKeys L (List.intercalate [44, 32] blind) = blind.map (addressKey L) := by
  rw [valueKeys, addressesOf, L.parseAddressList_bare blind hne hbare]
  simp

/-- The message returned is read as the one given, with the blind copies as its Bcc. -/
theorem Prepared.readMessage_out (h : Prepared L raw envelope m blind out) :
    ∃ m', readMessage out = .ok m' ∧
      (∀ field ∈ [lit "To", lit "Cc"], values m'.header field = values m.header field) ∧
      (values m'.header (lit "Bcc")).flatMap (valueKeys L) = blind.map (addressKey L) := by
  have hbare : ∀ r ∈ blind, L.parseAddress r = .ok ⟨[], r⟩ := fun r hr => h.bare r (h.sub r hr)
  rw [h.out]
  cases hblind : blind with
  | nil =>
    refine ⟨m, h.read, fun _ _ => rfl, ?_⟩
    rw [h.noBcc]
    rfl
  | cons r rs =>
    rw [← hblind]
    have hne : blind ≠ [] := by simp [hblind]
    have hread := readMessage_bccField hne (fun r hr => L.notMem_of_bare r (hbare r hr)) h.read
    rw [if_neg (by simp [hne])]
    refine ⟨_, hread, ?_, ?_⟩
    · intro field hfield
      have hname : ∀ field ∈ [lit "To", lit "Cc"], (lit "Bcc" == field) = false := by decide
      rw [values, List.filter_cons, if_neg (by simp [hname field hfield]), values]
    · rw [values, List.filter_cons, if_pos (beq_self_eq_true _), List.map_cons, ← values, h.noBcc,
        List.flatMap_cons, valueKeys_intercalate hne hbare]
      exact List.append_nil _

/-- Graph delivers to the first To and Cc, to those that are repeated, and to the blind
copies. -/
theorem Prepared.mem_deliveredTo (h : Prepared L raw envelope m blind out) {k : Bytes} :
    k ∈ deliveredTo L out ↔
      ((∃ field ∈ [lit "To", lit "Cc"],
          k ∈ ((values m.header field).take 1).flatMap (valueKeys L)) ∨
        k ∈ repeatedFields L raw) ∨ k ∈ blind.map (addressKey L) := by
  obtain ⟨m', hread, hsame, hbcc⟩ := h.readMessage_out
  have hto : ([lit "To", lit "Cc"].flatMap fun field =>
      (values m'.header field).flatMap (valueKeys L)) =
      [lit "To", lit "Cc"].flatMap fun field => (values m.header field).flatMap (valueKeys L) :=
    List.flatMap_congr fun field hfield => by rw [hsame field hfield]
  rw [deliveredTo, hread, repeatedFields, h.read]
  dsimp only
  rw [← mem_flatMap_values, ← hto, ← hbcc, ← List.mem_append]
  simp only [List.flatMap_cons, List.flatMap_nil, List.append_nil, List.append_assoc]

end Delivery

/-- **When Graph delivers to the envelope.**  Of a message `prepare` accepts, the
addresses in all To, Cc and Bcc fields of what it returns are the envelope recipients
exactly if the To and Cc fields that another one of their name precedes list no other. -/
theorem delivers_envelope_iff (L : Libraries) (raw : Bytes) (envelope : List Bytes)
    (out sender : Bytes) (haccepted : prepare L raw envelope = .ok (out, sender)) :
    (∀ k, k ∈ deliveredTo L out ↔ k ∈ envelope.map (addressKey L)) ↔
      ∀ k ∈ repeatedFields L raw, k ∈ envelope.map (addressKey L) := by
  obtain ⟨m, blind, h⟩ := prepare_eq_ok haccepted
  constructor
  · intro hequal k hk
    exact (hequal k).mp (h.mem_deliveredTo.mpr (.inl (.inr hk)))
  · intro hrepeated k
    rw [h.mem_deliveredTo, h.keys]
    constructor
    · rintro ((⟨field, hfield, hk⟩ | hk) | ⟨hk, -⟩)
      · exact h.inEnvelope field hfield k hk
      · exact hrepeated k hk
      · exact hk
    · intro hk
      by_cases hlisted : ∃ field ∈ [lit "To", lit "Cc"],
          k ∈ ((values m.header field).take 1).flatMap (valueKeys L)
      · exact .inl (.inl hlisted)
      · exact .inr ⟨hk, hlisted⟩

/-- A message with two Cc fields, and with a recipient that is in none. -/
def twoCcMessage : Bytes :=
  lit "From: a@x.example\r\nTo: B@x.example\r\nCc: c@x.example\r\ncc: b@x.example\r\n\r\nbody\r\n"

def twoCcEnvelope : List Bytes := [lit "b@x.example", lit "c@X.example", lit "d@x.example"]

theorem delivers_envelope_iff_twoCc :
    prepare .plain twoCcMessage twoCcEnvelope =
        .ok (lit "Bcc: d@x.example\r\n" ++ twoCcMessage, lit "a@x.example") ∧
      ∀ k, k ∈ deliveredTo .plain (lit "Bcc: d@x.example\r\n" ++ twoCcMessage) ↔
        k ∈ twoCcEnvelope.map (addressKey .plain) := by
  have hprepare : prepare .plain twoCcMessage twoCcEnvelope =
      .ok (lit "Bcc: d@x.example\r\n" ++ twoCcMessage, lit "a@x.example") := by decide +kernel
  exact ⟨hprepare, (delivers_envelope_iff .plain _ _ _ _ hprepare).mpr (by decide +kernel)⟩

/-- A message with a second To field. -/
def twoToMessage : Bytes :=
  lit "From: a@x.example\r\nTo: b@x.example\r\nTo: eve@y.example\r\n\r\nbody\r\n"

/-- It is sent as it is, also to the address the policy did not check. -/
theorem twoToMessage_delivers :
    prepare .plain twoToMessage [lit "b@x.example"] = .ok (twoToMessage, lit "a@x.example") ∧
      lit "eve@y.example" ∈ deliveredTo .plain twoToMessage ∧
      lit "eve@y.example" ∉ [lit "b@x.example"].map (addressKey .plain) := by decide +kernel

end Sigillum
