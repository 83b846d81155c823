import Sigillum.Assembly
import Sigillum.HeaderLines

/-! # The header of an assembled message

What `AssembleMessage` writes in front of the body, field by field: the fields it
manages with the values they get, one field for each of the caller's names, and those
that describe the body (`Headed`).  `assembleMessage_eq_ok_iff` takes the function apart
into its stages: the caller's headers are valid, the parts can be written, and the
fields can be folded.
-/
namespace Sigillum
open Runes Bytes HeaderBlock WordEncoder

theorem longestToken_subjectField (subject : Bytes) :
    longestToken (subjectField subject) ≤ maxFoldableToken := by
  unfold subjectField
  dsimp only
  split
  · exact (longestToken_forceEncodedWords subject).trans (by decide)
  · rename_i hshort
    exact Nat.not_lt.mp hshort

section Stages
variable {L : Libraries} {hdr hdr' : MIMEHeader} {headers : List (Bytes × Bytes)}

/-! ## The caller's headers -/

theorem validateHeaderKey_eq_ok_iff {k : Bytes} : validateHeaderKey L k = .ok () ↔ IsName k := by
  refine ⟨validateHeaderKey_eq_ok, fun ⟨hne, hbytes⟩ => ?_⟩
  have hvalid : ¬ (k.any fun c => c < 33 || 126 < c || c == 58) = true := by
    intro hbad
    obtain ⟨c, hc, hbad⟩ := List.any_eq_true.mp hbad
    have hbyte := hbytes c hc
    simp only [Bool.or_eq_true, decide_eq_true_eq, beq_iff_eq] at hbad
    grind
  rw [validateHeaderKey, if_neg hne, if_neg hvalid]

/-- The caller's headers can be set exactly if their names are valid, given that their
values are. -/
theorem exists_foldlM_setCustom_iff
    (hvalues : ∀ kv ∈ headers, ¬ containsInjectionChars kv.2 = true) :
    (∃ hdr', headers.foldlM (setCustom L) hdr = .ok hdr') ↔
      ∀ kv ∈ headers, isReservedHeader L kv.1 = false → IsName kv.1 := by
  constructor
  · rintro ⟨hdr', h⟩ kv hkv hfree
    exact ((foldlM_setCustom_eq_ok h).valid kv hkv hfree).1
  · intro hnames
    induction headers generalizing hdr with
    | nil => exact ⟨hdr, rfl⟩
    | cons kv headers ih =>
      obtain ⟨hvalue, hvalues⟩ := List.forall_mem_cons.mp hvalues
      obtain ⟨hname, hnames⟩ := List.forall_mem_cons.mp hnames
      have hstep : ∃ hdr₁, setCustom L hdr kv = .ok hdr₁ := by
        unfold setCustom
        split
        · exact ⟨hdr, rfl⟩
        · rename_i hfree
          rw [validateHeaderKey_eq_ok_iff.mpr (hname (Bool.eq_false_iff.mpr hfree))]
          exact ⟨_, rfl⟩
      obtain ⟨hdr₁, hstep⟩ := hstep
      obtain ⟨hdr', hrest⟩ := @ih hdr₁ hvalues hnames
      exact ⟨hdr', by rw [List.foldlM_cons, hstep]; exact hrest⟩

/-- A name that is there stays, if with another value. -/
theorem exists_mem_set {name key value v : Bytes} (h : (name, v) ∈ hdr.entries) :
    ∃ v', (name, v') ∈ (hdr.set key value).entries := by
  by_cases hname : name = canonicalKey key
  · exact ⟨value, MIMEHeader.mem_set.mpr (.inr (by rw [hname]))⟩
  · exact ⟨v, MIMEHeader.mem_set.mpr (.inl ⟨h, hname⟩)⟩

theorem exists_mem_foldlM_setCustom (h : headers.foldlM (setCustom L) hdr = .ok hdr') :
    (∀ f ∈ hdr.entries, ∃ v, (f.1, v) ∈ hdr'.entries) ∧
      ∀ kv ∈ headers, isReservedHeader L kv.1 = false →
        ∃ v, (canonicalKey kv.1, v) ∈ hdr'.entries := by
  induction headers generalizing hdr with
  | nil =>
    obtain rfl := Except.ok.inj h
    exact ⟨fun f hf => ⟨f.2, hf⟩, nofun⟩
  | cons kv headers ih =>
    rw [List.foldlM_cons, bind_eq_ok] at h
    obtain ⟨hdr₁, hstep, hrest⟩ := h
    obtain ⟨hkept, hset⟩ := ih hrest
    rcases setCustom_eq_ok hstep with ⟨hreserved, rfl⟩ | ⟨-, -, -, rfl⟩
    · refine ⟨hkept, List.forall_mem_cons.mpr ⟨fun hfree => ?_, hset⟩⟩
      rw [hreserved] at hfree
      cases hfree
    · refine ⟨fun f hf => ?_, List.forall_mem_cons.mpr ⟨fun _ => ?_, hset⟩⟩
      · obtain ⟨v, hv⟩ := exists_mem_set hf
        exact hkept (f.1, v) hv
      · exact hkept (canonicalKey kv.1, kv.2) (MIMEHeader.mem_set.mpr (.inr rfl))

/-! ## The stages -/

/-- The fields of the header can be folded. -/
def Foldable (hdr : MIMEHeader) : Prop :=
  ∀ f ∈ hdr.entries, longestLine (foldHeaderLine f.1 f.2) ≤ maxHeaderLine

/-- The stages of the assembly: the header with the caller's fields, then the header with
those that describe the body, and the body. -/
structure Stages (L : Libraries) (e : Entropy) (msg : Message) (custom hdr : MIMEHeader)
    (body : Bytes) : Prop where
  headers : msg.headers.foldlM (setCustom L) (managedHeader e msg.messageID msg) = .ok custom
  described : assembleBody L e custom msg = .ok (hdr, body)
  foldable : Foldable hdr

theorem exists_mapM_writeField_iff :
    (∃ lines, hdr.sorted.mapM (writeField L) = .ok lines) ↔ Foldable hdr := by
  rw [exists_mapM_eq_ok_iff]
  refine forall_congr' fun f => ?_
  rw [MIMEHeader.mem_sorted]
  refine imp_congr_right fun _ => ?_
  unfold writeField
  dsimp only
  split
  · rename_i hlong
    exact iff_of_false nofun (Nat.not_le.mpr hlong)
  · rename_i hshort
    exact iff_of_true ⟨_, rfl⟩ (Nat.not_lt.mp hshort)

/-- What is sent: the header, an empty line and the body. -/
def sentText (hdr : MIMEHeader) (body : Bytes) : Bytes :=
  (hdr.sorted.map fun f => foldHeaderLine f.1 f.2).flatten ++ lit "\r\n" ++ body

variable {e : Entropy} {msg : Message} {heloDomain : Bytes}

/-- **The assembly is its stages.** -/
theorem assembleMessage_eq_ok_iff (hid : msg.messageID ≠ []) {out id : Bytes} :
    assembleMessage L e msg heloDomain = .ok (out, id) ↔ msg.fromAddr.address ≠ [] ∧
      msg.toAddrs.length + msg.cc.length + msg.bcc.length ≠ 0 ∧
      ∃ custom hdr body, Stages L e msg custom hdr body ∧ out = sentText hdr body ∧
        id = msg.messageID := by
  unfold assembleMessage
  rw [if_neg hid]
  constructor
  · intro h
    split at h
    · cases h
    · rename_i hfrom
      split at h
      · cases h
      · rename_i hrecipients
        obtain ⟨custom, hcustom, h⟩ := bind_eq_ok.mp h
        obtain ⟨⟨hdr, body⟩, hbody, h⟩ := bind_eq_ok.mp h
        obtain ⟨lines, hlines, h⟩ := bind_eq_ok.mp h
        obtain ⟨rfl, rfl⟩ := Prod.mk.inj (Except.ok.inj h)
        refine ⟨hfrom, hrecipients, custom, hdr, body,
          ⟨hcustom, hbody, exists_mapM_writeField_iff.mp ⟨lines, hlines⟩⟩, ?_, rfl⟩
        rw [sentText, mapM_writeField_eq_ok hlines]
  · rintro ⟨hfrom, hrecipients, custom, hdr, body, hstages, rfl, rfl⟩
    rw [if_neg hfrom, if_neg hrecipients]
    obtain ⟨lines, hlines⟩ := exists_mapM_writeField_iff.mpr hstages.foldable
    refine bind_eq_ok.mpr ⟨custom, hstages.headers, bind_eq_ok.mpr
      ⟨(hdr, body), hstages.described, bind_eq_ok.mpr ⟨lines, hlines, ?_⟩⟩⟩
    rw [mapM_writeField_eq_ok hlines]
    rfl

/-! ## The fields of the header -/

/-- What is in the header of an assembled message. -/
structure Headed (L : Libraries) (e : Entropy) (msg : Message) (hdr : MIMEHeader) : Prop where
  valid : ∀ kv ∈ msg.headers, isReservedHeader L kv.1 = false → IsName kv.1 ∧ Unbroken kv.2
  cases : ∀ f ∈ hdr.entries,
    (∃ f' ∈ managedFields e msg.messageID msg, f = (canonicalKey f'.1, f'.2)) ∨
      (∃ kind : BodyKind, ∃ f' ∈ kind.fields e, f = (canonicalKey f'.1, f'.2)) ∨
      ∃ kv ∈ msg.headers, isReservedHeader L kv.1 = false ∧ f = (canonicalKey kv.1, kv.2)
  managed : ∀ f ∈ managedFields e msg.messageID msg, (canonicalKey f.1, f.2) ∈ hdr.entries
  contentType : ∃ v, (lit "Content-Type", v) ∈ hdr.entries
  custom : ∀ kv ∈ msg.headers, isReservedHeader L kv.1 = false →
    ∃ v, (canonicalKey kv.1, v) ∈ hdr.entries
  distinct : (msg.headers.map fun kv => canonicalKey kv.1).Nodup →
    ∀ kv ∈ msg.headers, isReservedHeader L kv.1 = false → (canonicalKey kv.1, kv.2) ∈ hdr.entries

theorem managedFields_names (e : Entropy) (messageID : Bytes) (msg : Message) :
    ∀ f ∈ managedFields e messageID msg, canonicalKey f.1 ∈ managedNames ∧
      canonicalKey f.1 ∉ contentNames := by
  have hnames : ∀ k ∈ [lit "Date", lit "Message-ID", lit "From", lit "To", lit "Cc", lit "Subject",
      lit "MIME-Version"],
      canonicalKey k ∈ managedNames ∧ canonicalKey k ∉ contentNames := by decide
  intro f hf
  refine hnames f.1 ?_
  unfold managedFields at hf
  simp only [List.mem_append, List.mem_ite_nil_right, List.mem_ite_nil_left, List.mem_cons,
    List.not_mem_nil, or_false] at hf
  rcases hf with ((((rfl | rfl | rfl) | ⟨-, rfl⟩) | ⟨-, rfl⟩) | ⟨-, rfl⟩) | rfl <;> simp

theorem headed_of_assembleBody {custom : MIMEHeader} {body : Bytes}
    (hheaders : msg.headers.foldlM (setCustom L) (managedHeader e msg.messageID msg) = .ok custom)
    (hbody : assembleBody L e custom msg = .ok (hdr, body)) : Headed L e msg hdr := by
  have hset := foldlM_setCustom_eq_ok hheaders
  obtain ⟨-, hcustom⟩ := exists_mem_foldlM_setCustom hheaders
  have hkept := fun f => mem_of_assembleBody (f := f) hbody
  have hcontent : ∀ n ∈ contentNames, n ∈ managedNames := by decide
  obtain ⟨kind, rfl⟩ := assembleBody_sets hbody
  have hmem := fun f => MIMEHeader.mem_setAll (h := custom) (e := f) (nodup_fields e kind)
  have hother : ∀ {k}, isReservedHeader L k = false → canonicalKey k ∉ contentNames :=
    fun hfree hname => not_managed_of_not_reserved hfree (hcontent _ hname)
  refine ⟨hset.valid, fun f hf => ?_, fun f hf => ?_, ?_, fun kv hkv hfree => ?_,
    fun hnodup kv hkv hfree => hkept _ (hset.set hnodup kv hkv hfree) (hother hfree)⟩
  · rcases (hmem f).mp hf with ⟨hf, -⟩ | hf
    · rcases hset.cases f hf with hf | hf
      · obtain ⟨f', hf', rfl⟩ := List.mem_map.mp (mem_managedHeader.mp hf)
        exact .inl ⟨f', hf', rfl⟩
      · exact .inr (.inr hf)
    · obtain ⟨f', hf', rfl⟩ := List.mem_map.mp hf
      exact .inr (.inl ⟨kind, f', hf', rfl⟩)
  · -- neither the caller's fields nor those of the body have a managed name
    obtain ⟨hname, hother⟩ := managedFields_names e msg.messageID msg f hf
    refine hkept _ (hset.kept _ ?_ fun kv _ hfree heq => ?_) hother
    · exact mem_managedHeader.mpr (List.mem_map.mpr ⟨f, hf, rfl⟩)
    · exact not_managed_of_not_reserved hfree (heq ▸ hname)
  · have htype : ∃ v, (lit "Content-Type", v) ∈ (kind.fields e).map
        fun f => (canonicalKey f.1, f.2) := by
      have hkey : canonicalKey (lit "Content-Type") = lit "Content-Type" := by decide
      cases kind <;>
        exact ⟨_, by rw [BodyKind.fields, List.map_cons, hkey]; exact List.mem_cons_self⟩
    obtain ⟨v, hv⟩ := htype
    exact ⟨v, (hmem _).mpr (.inr hv)⟩
  · obtain ⟨v, hv⟩ := hcustom kv hkv hfree
    exact ⟨v, hkept _ hv (hother hfree)⟩

theorem Headed.entry (h : Headed L e msg hdr) (hid : Unbroken msg.messageID)
    (hmsg : msg.WellAddressed) : ∀ f ∈ hdr.entries, IsName f.1 ∧ Unbroken f.2 := by
  have hmanaged : ∀ n ∈ managedNames, n ≠ [] ∧ ∀ c ∈ n, (33 ≤ c ∧ c ≤ 126) ∧ c ≠ 58 := by decide
  have hcontent : ∀ n ∈ contentNames, n ∈ managedNames := by decide
  intro f hf
  rcases h.cases f hf with ⟨f', hf', rfl⟩ | ⟨kind, f', hf', rfl⟩ | ⟨kv, hkv, hfree, rfl⟩
  · obtain ⟨hname, hvalue⟩ := forall_managedFields e hid hmsg f' hf'
    exact ⟨hmanaged _ hname, hvalue⟩
  · obtain ⟨hname, hvalue⟩ := forall_fields e kind f' hf'
    exact ⟨hmanaged _ (hcontent _ hname), hvalue⟩
  · obtain ⟨hname, hvalue⟩ := h.valid kv hkv hfree
    exact ⟨isName_canonicalKey hname, hvalue⟩

theorem Headed.name_cases (h : Headed L e msg hdr) {f : Bytes × Bytes} (hf : f ∈ hdr.entries) :
    f.1 ∈ managedNames ∨
      ∃ kv ∈ msg.headers, isReservedHeader L kv.1 = false ∧ f.1 = canonicalKey kv.1 := by
  have hcontent : ∀ n ∈ contentNames, n ∈ managedNames := by decide
  rcases h.cases f hf with ⟨f', hf', rfl⟩ | ⟨kind, f', hf', rfl⟩ | ⟨kv, hkv, hfree, rfl⟩
  · exact .inl (managedFields_names e msg.messageID msg f' hf').1
  · exact .inl (hcontent _ (forall_fields e kind f' hf').1)
  · exact .inr ⟨kv, hkv, hfree, rfl⟩

end Stages

end Sigillum
