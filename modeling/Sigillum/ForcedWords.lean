import Sigillum.HeaderLines
import Sigillum.TransferEncodings

/-! # Encoded-words of any text

`forceEncodedWords` writes a text as encoded-words even where none are needed, so that it
can be folded.  It is cut into chunks of at most 45 bytes, each the content of one word.

A chunk ends where a rune does.  So no rune of a text that is valid UTF-8 is divided
between two words, and every chunk is valid in itself (`validString_chunk`).
-/
namespace Sigillum
open Runes Bytes EncodedWords TransferEncodings WordEncoder

/-- A word with a payload in Base64. -/
def forcedWord (payload : Bytes) : Bytes := lit "=?utf-8?b?" ++ payload ++ lit "?="

/-- A text as encoded-words with these payloads. -/
structure ForcedText (s text : Bytes) (payloads : List Bytes) : Prop where
  words : text = List.intercalate [32] (payloads.map forcedWord)
  /-- The words are what stands between the spaces. -/
  spaces : ∀ p ∈ payloads, 32 ∉ forcedWord p
  short : ∀ p ∈ payloads, (forcedWord p).length ≤ 72
  lossless : (payloads.mapM base64Decode).map List.flatten = some s
  /-- Every round of the loop takes something from the text. -/
  progress : ∀ p ∈ payloads, base64Decode p ≠ some []
  whole : validString s = true →
    ∀ p ∈ payloads, ∃ chunk, base64Decode p = some chunk ∧ validString chunk = true

/-- A text that is valid is valid on both sides of where a word ends. -/
theorem validString_chunk (n : Nat) {s : Bytes} (h : validString s = true) :
    validString (s.take (chunkFrom n s - n)) = true ∧
      validString (s.drop (chunkFrom n s - n)) = true := by
  fun_induction chunkFrom n s with
  | case1 n => exact ⟨by rw [List.take_nil]; rfl, by rw [List.drop_nil]; rfl⟩
  | case2 n c s size hfull =>
    rw [Nat.sub_self]
    exact ⟨rfl, h⟩
  | case3 n c s size hroom ih =>
    obtain ⟨hrune, hrest⟩ := (validString_cons c s).mp h
    obtain ⟨htake, hdrop⟩ := ih hrest
    have hle := le_chunkFrom (n + size) ((c :: s).drop size)
    have hsize : (decodeRune (c :: s)).2 = size := rfl
    -- the rune that goes into the word, and what follows it there
    have hsplit : chunkFrom (n + size) ((c :: s).drop size) - n =
        size + (chunkFrom (n + size) ((c :: s).drop size) - (n + size)) := by omega
    rw [hsplit]
    generalize chunkFrom (n + size) ((c :: s).drop size) - (n + size) = k at htake hdrop
    refine ⟨?_, by rwa [← List.drop_drop]⟩
    have hread := decodeRune_take_append hrune (((c :: s).drop size).take k)
    have hwidth : size ≤ (c :: s).length := decodeRune_width_le (c :: s)
    have hpos : 0 < size := decodeRune_width_pos (List.cons_ne_nil c s)
    obtain ⟨w, hw⟩ : ∃ w, size = w + 1 := ⟨size - 1, by omega⟩
    rw [List.take_add]
    rw [hsize, hw, List.take_succ_cons, List.cons_append] at hread
    rw [hw, List.take_succ_cons, List.cons_append, validString_cons, hread, hsize]
    refine ⟨hrune, ?_⟩
    rw [hw] at hwidth htake ⊢
    have hlength : (c :: s.take w).length = w + 1 := by
      rw [List.length_cons, List.length_take]
      rw [List.length_cons] at hwidth
      omega
    rw [← List.cons_append, List.drop_left' hlength]
    exact htake

/-- **The chunks of a text**: together they are the text, and none is empty or too long. -/
theorem forcedWords_chunks (s : Bytes) :
    ∃ chunks : List Bytes,
      forcedWords s = chunks.map (fun chunk => forcedWord (stdEncoding.encode chunk)) ∧
      chunks.flatten = s ∧ (∀ chunk ∈ chunks, chunk ≠ [] ∧ chunk.length ≤ 45) ∧
      (validString s = true → ∀ chunk ∈ chunks, validString chunk = true) := by
  fun_induction forcedWords s with
  | case1 => exact ⟨[], rfl, rfl, List.forall_mem_nil _, fun _ => List.forall_mem_nil _⟩
  | case2 c s n ih =>
    obtain ⟨chunks, hwords, hflat, hchunks, hvalid⟩ := ih
    have hpos : 0 < n := chunkFrom_pos c s
    have hle : n ≤ 45 := chunkFrom_le (c :: s) (Nat.zero_le _)
    refine ⟨(c :: s).take n :: chunks, ?_, ?_, ?_, fun h => ?_⟩
    · rw [List.map_cons, hwords]
      rfl
    · rw [List.flatten_cons, hflat, List.take_append_drop]
    · refine List.forall_mem_cons.mpr ⟨⟨?_, ?_⟩, hchunks⟩
      · rw [ne_eq, List.take_eq_nil_iff, not_or]
        exact ⟨by omega, List.cons_ne_nil c s⟩
      · rw [List.length_take]
        exact (Nat.min_le_left _ _).trans hle
    · have hcut := validString_chunk 0 h
      rw [Nat.sub_zero] at hcut
      exact List.forall_mem_cons.mpr ⟨hcut.1, hvalid hcut.2⟩

/-- **Forced encoded-words lose nothing**, whatever the bytes of the text are. -/
theorem forceEncodedWords_lossless (s : Bytes) :
    ∃ payloads, ForcedText s (forceEncodedWords s) payloads := by
  obtain ⟨chunks, hwords, hflat, hchunks, hvalid⟩ := forcedWords_chunks s
  have hlit : (lit "=?utf-8?b?").length = 10 ∧ (lit "?=").length = 2 ∧
      32 ∉ lit "=?utf-8?b?" ∧ 32 ∉ lit "?=" := by decide
  have hdecode : ∀ chunks : List Bytes,
      (chunks.map stdEncoding.encode).mapM base64Decode = some chunks := by
    intro chunks
    induction chunks with
    | nil => rfl
    | cons chunk chunks ih =>
      rw [List.map_cons, List.mapM_cons, base64Decode_encode, ih]
      rfl
  refine ⟨chunks.map stdEncoding.encode, ?_, ?_, ?_, ?_, ?_, fun h => ?_⟩
  · rw [forceEncodedWords, hwords, List.map_map]
    rfl
  · refine List.forall_mem_map.mpr fun chunk _ => ?_
    rw [forcedWord, List.mem_append, List.mem_append, not_or, not_or]
    exact ⟨⟨hlit.2.2.1, space_notMem_encode (by decide) (by decide) chunk⟩, hlit.2.2.2⟩
  · refine List.forall_mem_map.mpr fun chunk hchunk => ?_
    have hlength := (hchunks chunk hchunk).2
    rw [forcedWord, List.length_append, List.length_append, length_stdEncode, hlit.1, hlit.2.1]
    omega
  · rw [hdecode, Option.map_some, hflat]
  · refine List.forall_mem_map.mpr fun chunk hchunk => ?_
    rw [base64Decode_encode]
    exact fun h => (hchunks chunk hchunk).1 (Option.some.inj h)
  · refine List.forall_mem_map.mpr fun chunk hchunk => ?_
    exact ⟨chunk, base64Decode_encode chunk, hvalid h chunk hchunk⟩

end Sigillum
