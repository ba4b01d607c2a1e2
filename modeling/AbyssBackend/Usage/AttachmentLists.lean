import AbyssBackend.Library.PaddedBase64
import AbyssBackend.Library.Rows
import AbyssBackend.Library.Sorting
import AbyssBackend.Usage.Attachments

namespace AbyssBackend

open Attempts PaddedBase64 Rows Sorting Text

/-- The decoder accepts the standard, canonically padded base64 of bytes and nothing else. -/
class LawfulBase64 [Base64] : Prop where
  decode_eq_some : ∀ text bytes, Base64.decode text = some bytes ↔ text.toList = encode bytes

namespace Attachments

def lowercaseHexDigits : List Char := "0123456789abcdef".toList

section Hex

variable {value : String} {text : List Char} {bytes decoded : List UInt8}

theorem hexValue_hexDigit {n : ℕ} (h : n < 16) : hexValue (hexDigit n) = some n := by
  have hall : ∀ n : Fin 16, hexValue (hexDigit n) = some n.val := by decide
  exact hall ⟨n, h⟩

theorem toList_hexEncode (bytes : List UInt8) : (hexEncode bytes).toList =
    bytes.flatMap fun byte => [hexDigit (byte.toNat / 16), hexDigit (byte.toNat % 16)] := String.toList_ofList

theorem hexDecode_hexEncode (bytes : List UInt8) : hexDecode (hexEncode bytes).toList = some bytes := by
  rw [toList_hexEncode]
  induction bytes with
  | nil => rfl
  | cons byte bytes ih =>
    have hbyte := byte.toNat_lt
    have hvalue : 16 * (byte.toNat / 16) + byte.toNat % 16 = byte.toNat := Nat.div_add_mod byte.toNat 16
    rw [List.flatMap_cons, List.cons_append, List.cons_append, List.nil_append, hexDecode, ih,
      hexValue_hexDigit (by omega), hexValue_hexDigit (by omega)]
    simp only [Option.bind_eq_bind, Option.bind_some, hvalue, UInt8.ofNat_toNat]
    rfl

theorem hexEncode_injective (h : hexEncode bytes = hexEncode decoded) : bytes = decoded := by
  have hbytes := hexDecode_hexEncode bytes
  rw [h, hexDecode_hexEncode] at hbytes
  exact (Option.some.inj hbytes).symm

theorem length_hexEncode (bytes : List UInt8) : (hexEncode bytes).toList.length = 2 * bytes.length := by
  rw [toList_hexEncode]
  induction bytes with
  | nil => rfl
  | cons byte bytes ih =>
    simp only [List.flatMap_cons, List.length_append, List.length_cons, List.length_nil, ih]
    omega

theorem hexEncode_lowercase (bytes : List UInt8) : ∀ c ∈ (hexEncode bytes).toList, c ∈ lowercaseHexDigits := by
  have hall : ∀ n : Fin 16, hexDigit n ∈ lowercaseHexDigits := by decide
  rw [toList_hexEncode]
  intro c hc
  obtain ⟨byte, -, hmem⟩ := List.mem_flatMap.mp hc
  have hbyte := byte.toNat_lt
  obtain rfl | hlow := List.mem_cons.mp hmem
  · exact hall ⟨byte.toNat / 16, by omega⟩
  · rw [List.mem_singleton.mp hlow]
    exact hall ⟨byte.toNat % 16, by omega⟩

theorem exists_hexDigit {c : Char} (h : c ∈ lowercaseHexDigits) : ∃ n < 16, c = hexDigit n := by
  obtain ⟨n, hn, hc⟩ := List.getElem_of_mem h
  have hlt : n < 16 := hn
  refine ⟨n, hlt, ?_⟩
  rw [← hc, hexDigit, List.getD_eq_getElem?_getD]
  exact (congrArg (Option.getD · '0') (List.getElem?_eq_getElem hn)).symm

theorem exists_hexEncode (count : ℕ) (hlength : text.length = 2 * count) (h : ∀ c ∈ text, c ∈ lowercaseHexDigits) :
    ∃ bytes, bytes.length = count ∧ (hexEncode bytes).toList = text := by
  induction count generalizing text with
  | zero =>
    refine ⟨[], rfl, ?_⟩
    rw [List.eq_nil_of_length_eq_zero hlength]
    rfl
  | succ count ih =>
    match text with
    | high :: low :: rest =>
      simp only [List.length_cons] at hlength
      obtain ⟨m, hm, rfl⟩ := exists_hexDigit (h high (by simp))
      obtain ⟨n, hn, rfl⟩ := exists_hexDigit (h low (by simp))
      obtain ⟨bytes, hbytes, hrest⟩ := @ih rest (by omega) fun c hc => h c (by simp [hc])
      have hbyte : (UInt8.ofNat (16 * m + n)).toNat = 16 * m + n := toNat_ofNat (by omega)
      refine ⟨UInt8.ofNat (16 * m + n) :: bytes, by rw [List.length_cons, hbytes], ?_⟩
      rw [toList_hexEncode] at hrest ⊢
      have hhigh : (16 * m + n) / 16 = m := by omega
      have hlow : (16 * m + n) % 16 = n := by omega
      rw [List.flatMap_cons, hrest, hbyte, hhigh, hlow]
      rfl

theorem decodeSha256_eq_ok : decodeSha256 value = .ok bytes ↔ bytes.length = 32 ∧ hexEncode bytes = trim value := by
  constructor
  · intro h
    unfold decodeSha256 at h
    split at h
    · cases h
    · split_ifs at h with hshape
      cases h
      obtain ⟨hlength, htext⟩ := not_or.mp hshape
      exact ⟨not_not.mp hlength, (not_not.mp htext).symm⟩
  · rintro ⟨hlength, htext⟩
    rw [decodeSha256, ← htext, hexDecode_hexEncode]
    exact if_neg (by simp [hlength])

end Hex

/-- What one attachment becomes. -/
structure Validates [Sha256] (attachment : IngestImageAttachment) (validated : ValidatedImageAttachment) : Prop where
  position : validated.position = attachment.position
  mediaType : validated.mediaType = attachment.mediaType
  byteSize : validated.byteSize = attachment.byteSize
  sha256 : validated.sha256.length = 32 ∧ hexEncode validated.sha256 = trim attachment.sha256
  content : Option.Rel (fun encoded bytes => encoded.toList = encode bytes ∧ bytes.length = attachment.byteSize ∧
    Sha256.digestBytes bytes = validated.sha256 ∧ attachment.mediaType.matchesSignature bytes = true)
    attachment.contentBase64 validated.content

/-- The lists of attachments that are documented to be taken. -/
structure Documented [Sha256] (attachments : List IngestImageAttachment) : Prop where
  count : attachments.length ≤ 8
  nonnegative : ∀ attachment ∈ attachments, 0 ≤ attachment.position
  distinct : (attachments.map IngestImageAttachment.position).Nodup
  byteSize : ∀ attachment ∈ attachments, 1 ≤ attachment.byteSize ∧ attachment.byteSize ≤ 8 * 1024 * 1024
  total : (attachments.map IngestImageAttachment.byteSize).sum ≤ 8 * 1024 * 1024
  sha256 : ∀ attachment ∈ attachments, (trim attachment.sha256).toList.length = 64 ∧
    ∀ c ∈ (trim attachment.sha256).toList, c ∈ lowercaseHexDigits
  content : ∀ attachment ∈ attachments, ∀ encoded ∈ attachment.contentBase64, ∃ bytes,
    encoded.toList = encode bytes ∧ bytes.length = attachment.byteSize ∧
      hexEncode (Sha256.digestBytes bytes) = trim attachment.sha256 ∧
      attachment.mediaType.matchesSignature bytes = true

section Validation

variable [Sha256] [Base64] [LawfulBase64] {positions : List ℤ} {aggregateBytes size : ℕ} {encoded : String}
  {sha256 bytes : List UInt8} {attachment : IngestImageAttachment} {attachments : List IngestImageAttachment}
  {validated : ValidatedImageAttachment} {validatedList : List ValidatedImageAttachment}

omit [Sha256] [Base64] [LawfulBase64] in
theorem length_utf8 (text : String) : (utf8 text).length = (text.toList.map Char.utf8Size).sum := by
  have hsize : ∀ chars : List Char, chars.utf8Encode.size = (chars.map Char.utf8Size).sum := by
    intro chars
    induction chars with
    | nil => rfl
    | cons c chars ih =>
      rw [List.utf8Encode_cons, ByteArray.size_append, ih, List.map_cons, List.sum_cons]
      simp [List.utf8Encode_singleton]
  rw [← hsize, ← String.toByteArray_ofList, String.ofList_toList]
  exact Array.length_toList

omit [Sha256] [Base64] [LawfulBase64] in
theorem length_utf8_encoded (h : encoded.toList = encode bytes) :
    (utf8 encoded).length = 4 * ((bytes.length + 2) / 3) := by
  have hones : (encode bytes).map Char.utf8Size = (encode bytes).map fun _ => 1 := List.map_congr_left utf8Size_encode
  rw [length_utf8, h, hones, ← length_encode]
  simp

/-- The limit on the text is the length of the text of the most bytes that are taken. -/
theorem decodeContent_eq_ok (hsize : size ≤ maxImageAttachmentBytesPerEvent) :
    decodeContent attachment encoded size sha256 = .ok bytes ↔ encoded.toList = encode bytes ∧ bytes.length = size ∧
      Sha256.digestBytes bytes = sha256 ∧ attachment.mediaType.matchesSignature bytes = true := by
  constructor
  · intro h
    unfold decodeContent at h
    split_ifs at h
    split at h
    · cases h
    · next decoded hdecoded =>
      split_ifs at h with hlength hdigest hmedia
      cases h
      exact ⟨(LawfulBase64.decode_eq_some encoded bytes).mp hdecoded, not_not.mp hlength, not_not.mp hdigest,
        by simpa using hmedia⟩
  · rintro ⟨htext, hlength, hdigest, hmedia⟩
    have hfits : ¬ (utf8 encoded).length > maxBase64ImageCharacters := by
      rw [length_utf8_encoded htext]
      unfold maxImageAttachmentBytesPerEvent at hsize
      unfold maxBase64ImageCharacters
      omega
    rw [decodeContent, if_neg hfits, (LawfulBase64.decode_eq_some encoded bytes).mpr htext]
    simp [hlength, hdigest, hmedia]

omit [LawfulBase64] in
theorem validateOne_of_fits (hposition : 0 ≤ attachment.position ∧ attachment.position ∉ positions)
    (hsize : 1 ≤ attachment.byteSize ∧ attachment.byteSize ≤ maxImageAttachmentBytesPerEvent)
    (htotal : aggregateBytes + attachment.byteSize ≤ maxImageAttachmentBytesPerEvent) :
    validateOne positions aggregateBytes attachment = decodeSha256 attachment.sha256 >>= fun sha256 =>
      (attachment.contentBase64.mapM fun encoded => decodeContent attachment encoded attachment.byteSize sha256) >>=
        fun content => .ok ⟨attachment.position, attachment.mediaType, attachment.byteSize, sha256, content⟩ := by
  have hfree : ¬ (decide (attachment.position < 0) || positions.contains attachment.position) = true := by
    simpa using hposition
  have hbounds : ¬ (attachment.byteSize = 0 ∨ attachment.byteSize > maxImageAttachmentBytesPerEvent) := by omega
  have hroom : ¬ aggregateBytes + attachment.byteSize > maxImageAttachmentBytesPerEvent := by omega
  unfold validateOne
  simp only [if_neg hfree, if_neg hbounds, if_neg hroom]
  rfl

omit [LawfulBase64] in
theorem validateOne_fits (h : validateOne positions aggregateBytes attachment = .ok validated) :
    (0 ≤ attachment.position ∧ attachment.position ∉ positions) ∧
      (1 ≤ attachment.byteSize ∧ attachment.byteSize ≤ maxImageAttachmentBytesPerEvent) ∧
      aggregateBytes + attachment.byteSize ≤ maxImageAttachmentBytesPerEvent := by
  unfold validateOne at h
  by_cases hposition : (decide (attachment.position < 0) || positions.contains attachment.position) = true
  · rw [if_pos hposition] at h
    cases h
  · by_cases hsize : attachment.byteSize = 0 ∨ attachment.byteSize > maxImageAttachmentBytesPerEvent
    · simp only [if_neg hposition, if_pos hsize] at h
      cases h
    · by_cases htotal : aggregateBytes + attachment.byteSize > maxImageAttachmentBytesPerEvent
      · simp only [if_neg hposition, if_neg hsize, if_pos htotal] at h
        cases h
      · have hfree : 0 ≤ attachment.position ∧ attachment.position ∉ positions := by simpa using hposition
        exact ⟨hfree, by omega, by omega⟩

theorem validateOne_eq_ok : validateOne positions aggregateBytes attachment = .ok validated ↔
    ((0 ≤ attachment.position ∧ attachment.position ∉ positions) ∧
      (1 ≤ attachment.byteSize ∧ attachment.byteSize ≤ maxImageAttachmentBytesPerEvent) ∧
      aggregateBytes + attachment.byteSize ≤ maxImageAttachmentBytesPerEvent) ∧ Validates attachment validated := by
  by_cases hfits : (0 ≤ attachment.position ∧ attachment.position ∉ positions) ∧
      (1 ≤ attachment.byteSize ∧ attachment.byteSize ≤ maxImageAttachmentBytesPerEvent) ∧
      aggregateBytes + attachment.byteSize ≤ maxImageAttachmentBytesPerEvent
  · obtain ⟨hposition, hsize, htotal⟩ := hfits
    rw [and_iff_right ⟨hposition, hsize, htotal⟩, validateOne_of_fits hposition hsize htotal]
    simp only [bind_eq_ok, decodeSha256_eq_ok, option_mapM_eq_ok, decodeContent_eq_ok hsize.2]
    constructor
    · rintro ⟨sha256, hsha256, content, hcontent, hvalidated⟩
      cases hvalidated
      exact ⟨rfl, rfl, rfl, hsha256, hcontent⟩
    · intro h
      refine ⟨validated.sha256, h.sha256, validated.content, h.content, ?_⟩
      rw [← h.position, ← h.mediaType, ← h.byteSize]
  · constructor
    · exact fun h => absurd (validateOne_fits h) hfits
    · exact fun h => absurd h.1 hfits

/-- What the attachments after others are asked for. -/
structure Fits (positions : List ℤ) (aggregateBytes : ℕ) (attachments : List IngestImageAttachment) : Prop where
  free : ∀ attachment ∈ attachments, 0 ≤ attachment.position ∧ attachment.position ∉ positions
  distinct : (attachments.map IngestImageAttachment.position).Nodup
  byteSize : ∀ attachment ∈ attachments, 1 ≤ attachment.byteSize ∧
    attachment.byteSize ≤ maxImageAttachmentBytesPerEvent
  total : aggregateBytes + (attachments.map IngestImageAttachment.byteSize).sum ≤ maxImageAttachmentBytesPerEvent

omit [Sha256] [Base64] [LawfulBase64] in
theorem fits_cons : Fits positions aggregateBytes (attachment :: attachments) ↔
    ((0 ≤ attachment.position ∧ attachment.position ∉ positions) ∧
      (1 ≤ attachment.byteSize ∧ attachment.byteSize ≤ maxImageAttachmentBytesPerEvent) ∧
      aggregateBytes + attachment.byteSize ≤ maxImageAttachmentBytesPerEvent) ∧
    Fits (positions ++ [attachment.position]) (aggregateBytes + attachment.byteSize) attachments := by
  constructor
  · intro h
    have htotal := h.total
    obtain ⟨hfresh, hdistinct⟩ := List.nodup_cons.mp h.distinct
    rw [List.map_cons, List.sum_cons] at htotal
    refine ⟨⟨h.free _ List.mem_cons_self, h.byteSize _ List.mem_cons_self, by omega⟩, ?_, hdistinct, ?_, by omega⟩
    · intro other hother
      obtain ⟨hnonnegative, hfree⟩ := h.free other (List.mem_cons_of_mem _ hother)
      refine ⟨hnonnegative, fun hmem => ?_⟩
      obtain hmem | hmem := List.mem_append.mp hmem
      · exact hfree hmem
      · apply hfresh
        rw [← List.mem_singleton.mp hmem]
        exact List.mem_map_of_mem hother
    · exact fun other hother => h.byteSize other (List.mem_cons_of_mem _ hother)
  · rintro ⟨⟨hposition, hsize, -⟩, h⟩
    have htotal := h.total
    refine ⟨List.forall_mem_cons.mpr ⟨hposition, fun other hother => ?_⟩, List.nodup_cons.mpr ⟨?_, h.distinct⟩,
      List.forall_mem_cons.mpr ⟨hsize, h.byteSize⟩, ?_⟩
    · obtain ⟨hnonnegative, hfree⟩ := h.free other hother
      exact ⟨hnonnegative, fun hmem => hfree (List.mem_append_left _ hmem)⟩
    · intro hmem
      obtain ⟨other, hother, hsame⟩ := List.mem_map.mp hmem
      apply (h.free other hother).2
      simp [hsame]
    · rw [List.map_cons, List.sum_cons]
      omega

theorem validateFrom_eq_ok (h : aggregateBytes ≤ maxImageAttachmentBytesPerEvent) :
    validateFrom positions aggregateBytes attachments = .ok validatedList ↔
      Fits positions aggregateBytes attachments ∧ List.Forall₂ Validates attachments validatedList := by
  induction attachments generalizing positions aggregateBytes validatedList with
  | nil =>
    constructor
    · intro hnil
      cases hnil
      exact ⟨⟨by simp, by simp, by simp, by simpa using h⟩, .nil⟩
    · rintro ⟨-, ⟨⟩⟩
      rfl
  | cons attachment attachments ih =>
    rw [validateFrom, bind_eq_ok, fits_cons]
    simp only [bind_eq_ok, validateOne_eq_ok]
    constructor
    · rintro ⟨first, ⟨hfits, hfirst⟩, others, hothers, hlist⟩
      cases hlist
      obtain ⟨hrest, hall⟩ := (ih hfits.2.2).mp hothers
      exact ⟨⟨hfits, hrest⟩, .cons hfirst hall⟩
    · rintro ⟨⟨hfits, hrest⟩, hall⟩
      cases hall with
      | cons hfirst hall => exact ⟨_, ⟨hfits, hfirst⟩, _, (ih hfits.2.2).mpr ⟨hrest, hall⟩, rfl⟩

theorem validateImageAttachments_eq_ok : validateImageAttachments attachments = .ok validatedList ↔
    attachments.length ≤ maxImageAttachmentsPerEvent ∧ Fits [] 0 attachments ∧ ∃ unsorted,
      List.Forall₂ Validates attachments unsorted ∧ validatedList = sortBy ValidatedImageAttachment.position unsorted := by
  unfold validateImageAttachments
  by_cases hcount : attachments.length > maxImageAttachmentsPerEvent
  · rw [if_pos hcount]
    constructor
    · intro h
      cases h
    · exact fun h => absurd h.1 (Nat.not_le.mpr hcount)
  · simp only [if_neg hcount]
    constructor
    · intro h
      obtain ⟨unsorted, hunsorted, hlist⟩ := bind_eq_ok.mp h
      cases hlist
      obtain ⟨hfits, hall⟩ := (validateFrom_eq_ok (Nat.zero_le _)).mp hunsorted
      exact ⟨Nat.not_lt.mp hcount, hfits, unsorted, hall, rfl⟩
    · rintro ⟨-, hfits, unsorted, hall, rfl⟩
      exact bind_eq_ok.mpr ⟨unsorted, (validateFrom_eq_ok (Nat.zero_le _)).mpr ⟨hfits, hall⟩, rfl⟩

omit [Base64] [LawfulBase64] in
theorem Validates.lowercase (h : Validates attachment validated) : (trim attachment.sha256).toList.length = 64 ∧
    ∀ c ∈ (trim attachment.sha256).toList, c ∈ lowercaseHexDigits := by
  obtain ⟨hlength, htext⟩ := h.sha256
  rw [← htext, length_hexEncode, hlength]
  exact ⟨rfl, hexEncode_lowercase _⟩

omit [Base64] [LawfulBase64] in
theorem Validates.canonical (h : Validates attachment validated) : ∀ encoded ∈ attachment.contentBase64, ∃ bytes,
    encoded.toList = encode bytes ∧ bytes.length = attachment.byteSize ∧
      hexEncode (Sha256.digestBytes bytes) = trim attachment.sha256 ∧
      attachment.mediaType.matchesSignature bytes = true := by
  have hcontent := h.content
  intro encoded hencoded
  rw [Option.mem_def.mp hencoded] at hcontent
  generalize validated.content = content at hcontent
  cases hcontent with
  | some hbytes =>
    obtain ⟨htext, hlength, hdigest, hmedia⟩ := hbytes
    refine ⟨_, htext, hlength, ?_, hmedia⟩
    rw [hdigest]
    exact h.sha256.2

omit [Base64] [LawfulBase64] in
theorem Documented.validates (h : Documented attachments) (hmem : attachment ∈ attachments) :
    ∃ validated, Validates attachment validated := by
  obtain ⟨hlength, hlowercase⟩ := h.sha256 attachment hmem
  obtain ⟨sha256, hbytes, htext⟩ := exists_hexEncode 32 hlength hlowercase
  have hsha256 : hexEncode sha256 = trim attachment.sha256 := String.toList_injective htext
  cases hcontent : attachment.contentBase64 with
  | none =>
    refine ⟨⟨attachment.position, attachment.mediaType, attachment.byteSize, sha256, none⟩, rfl, rfl, rfl,
      ⟨hbytes, hsha256⟩, ?_⟩
    rw [hcontent]
    exact .none
  | some encoded =>
    obtain ⟨bytes, hencoded, hsize, hdigest, hmedia⟩ := h.content attachment hmem encoded hcontent
    refine ⟨⟨attachment.position, attachment.mediaType, attachment.byteSize, sha256, some bytes⟩, rfl, rfl, rfl,
      ⟨hbytes, hsha256⟩, ?_⟩
    rw [hcontent]
    exact .some ⟨hencoded, hsize, hexEncode_injective (hdigest.trans hsha256.symm), hmedia⟩

omit [Base64] [LawfulBase64] in
theorem documented_iff : Documented attachments ↔ attachments.length ≤ maxImageAttachmentsPerEvent ∧
    Fits [] 0 attachments ∧ ∃ validatedList, List.Forall₂ Validates attachments validatedList := by
  constructor
  · intro h
    refine ⟨h.count, ⟨fun attachment hmem => ⟨h.nonnegative attachment hmem, List.not_mem_nil⟩, h.distinct, h.byteSize,
      ?_⟩, forall₂_exists fun attachment hmem => h.validates hmem⟩
    rw [Nat.zero_add]
    exact h.total
  · rintro ⟨hcount, hfits, validatedList, hall⟩
    have htotal := hfits.total
    rw [Nat.zero_add] at htotal
    have heach : ∀ attachment ∈ attachments, ∃ validated, Validates attachment validated := fun attachment hmem => by
      obtain ⟨validated, -, hvalidates⟩ := forall₂_mem_left hall hmem
      exact ⟨validated, hvalidates⟩
    refine ⟨hcount, fun attachment hmem => (hfits.free attachment hmem).1, hfits.distinct, hfits.byteSize, htotal,
      fun attachment hmem => ?_, fun attachment hmem => ?_⟩
    · obtain ⟨validated, hvalidates⟩ := heach attachment hmem
      exact hvalidates.lowercase
    · obtain ⟨validated, hvalidates⟩ := heach attachment hmem
      exact hvalidates.canonical

omit [Sha256] [Base64] [LawfulBase64] in
theorem sortBy_ascending (h : Fits [] 0 attachments) :
    (sortBy IngestImageAttachment.position attachments).Pairwise fun x y => x.position < y.position := by
  have hdistinct : (sortBy IngestImageAttachment.position attachments).Pairwise fun x y => x.position ≠ y.position := by
    rw [← List.pairwise_map]
    exact ((sortBy_perm _ attachments).map _).nodup_iff.mpr h.distinct
  exact ((sortBy_pairwise _ attachments).and hdistinct).imp fun hxy => lt_of_le_of_ne hxy.1 hxy.2

/-- Exactly the documented lists are taken, and what they become is fit for the table. -/
theorem validateImageAttachments_documented (attachments : List IngestImageAttachment) :
    ((∃ validated, validateImageAttachments attachments = .ok validated) ↔ Documented attachments) ∧
    ∀ validated, validateImageAttachments attachments = .ok validated → AllStorable validated ∧
      (∀ attachment ∈ validated, attachment.mediaType.asStr ∈
        ["image/png", "image/jpeg", "image/webp", "image/gif"]) ∧
      ((sortBy IngestImageAttachment.position attachments).Pairwise fun x y => x.position < y.position) ∧
      List.Forall₂ Validates (sortBy IngestImageAttachment.position attachments) validated := by
  constructor
  · rw [documented_iff]
    simp only [validateImageAttachments_eq_ok]
    constructor
    · rintro ⟨_, hcount, hfits, unsorted, hall, -⟩
      exact ⟨hcount, hfits, unsorted, hall⟩
    · rintro ⟨hcount, hfits, unsorted, hall⟩
      exact ⟨_, hcount, hfits, unsorted, hall, rfl⟩
  · intro validated h
    obtain ⟨-, hfits, unsorted, hall, rfl⟩ := validateImageAttachments_eq_ok.mp h
    refine ⟨validateImageAttachments_ok h, fun attachment _ => ?_, sortBy_ascending hfits, ?_⟩
    · cases attachment.mediaType <;> decide
    · apply forall₂_sortBy hall
      exact fun _ _ hvalidates => hvalidates.position.symm

end Validation

section Gif

def headerDigest : List UInt8 := [0x61, 0x0f, 0x5a, 0xe4, 0xd7, 0x6e, 0x33, 0x26, 0x36, 0xa1, 0x7b, 0xd3, 0x57, 0xfd, 0x6c, 0xe9,
  0x90, 0x29, 0x31, 0x6a, 0x99, 0xd3, 0x20, 0x28, 0x0d, 0x4d, 0x77, 0xa7, 0x46, 0xbf, 0x29, 0xe8]

def headerBytes : List UInt8 := "GIF89a".toList.map fun c => UInt8.ofNat c.toNat

local instance gifDigest : Sha256 := ⟨fun bytes => if bytes = headerBytes then headerDigest else []⟩

local instance plainBase64 : Base64 := ⟨fun text => decode text.toList⟩

local instance plainBase64_lawful : LawfulBase64 := ⟨fun _ _ => decode_eq_some⟩

def gifHeader : IngestImageAttachment where
  position := 3
  mediaType := .gif
  byteSize := 6
  sha256 := " 610f5ae4d76e332636a17bd357fd6ce99029316a99d320280d4d77a746bf29e8"
  contentBase64 := some "R0lGODlh"

def pngNamed : IngestImageAttachment where
  position := 1
  mediaType := .png
  byteSize := 8388602
  sha256 := "610f5ae4d76e332636a17bd357fd6ce99029316a99d320280d4d77a746bf29e8"
  contentBase64 := none

theorem lowercase_of_all {text : String} (hlength : (trim text).toList.length = 64)
    (h : ((trim text).toList.all fun c => decide (c ∈ lowercaseHexDigits)) = true) :
    (trim text).toList.length = 64 ∧ ∀ c ∈ (trim text).toList, c ∈ lowercaseHexDigits :=
  ⟨hlength, fun c hc => of_decide_eq_true (List.all_eq_true.mp h c hc)⟩

/-- A content and an attachment without one, out of order and together at the limit. -/
theorem validateImageAttachments_documented_two : Documented [gifHeader, pngNamed] ∧
    ∃ validated, validateImageAttachments [gifHeader, pngNamed] = .ok validated ∧ AllStorable validated := by
  have hdocumented : Documented [gifHeader, pngNamed] := by
    refine ⟨by decide, by decide, by decide, by decide, by decide, ?_, ?_⟩
    all_goals
      intro attachment hattachment
      obtain rfl | hpng := List.mem_cons.mp hattachment
    · exact lowercase_of_all (by decide +kernel) (by decide +kernel)
    · rw [List.mem_singleton.mp hpng]
      exact lowercase_of_all (by decide +kernel) (by decide +kernel)
    · intro encoded hencoded
      cases hencoded
      exact ⟨headerBytes, by decide +kernel, by decide, by decide +kernel, by decide⟩
    · intro encoded hencoded
      rw [List.mem_singleton.mp hpng] at hencoded
      cases hencoded
  obtain ⟨hiff, hstorable⟩ := validateImageAttachments_documented [gifHeader, pngNamed]
  obtain ⟨validated, hok⟩ := hiff.mpr hdocumented
  exact ⟨hdocumented, validated, hok, (hstorable validated hok).1⟩

end Gif

end Attachments

end AbyssBackend
