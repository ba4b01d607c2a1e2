import AbyssBackend.Error
import AbyssBackend.Library.Attempts
import AbyssBackend.Text
import Mathlib.Data.List.Sort

namespace AbyssBackend

open Attempts Text

/-- Standard base64 with padding, which the program takes from a library. -/
class Base64 where
  decode : String → Option (List UInt8)

namespace Attachments

def maxImageAttachmentsPerEvent : ℕ := 8

def maxImageAttachmentBytesPerEvent : ℕ := 8388608

def maxBase64ImageCharacters : ℕ := 11184812

inductive ImageMediaType
  | png
  | jpeg
  | webp
  | gif
deriving DecidableEq, Repr

def ImageMediaType.asStr : ImageMediaType → String
  | .png => "image/png"
  | .jpeg => "image/jpeg"
  | .webp => "image/webp"
  | .gif => "image/gif"

def startsWith (bytes signature : List UInt8) : Bool := signature.isPrefixOf bytes

def ImageMediaType.matchesSignature (mediaType : ImageMediaType) (bytes : List UInt8) : Bool :=
  match mediaType with
  | .png => startsWith bytes [0x89, 0x50, 0x4E, 0x47, 0x0D, 0x0A, 0x1A, 0x0A]
  | .jpeg => startsWith bytes [0xFF, 0xD8, 0xFF]
  | .webp => 12 ≤ bytes.length && startsWith bytes [0x52, 0x49, 0x46, 0x46] &&
      (bytes.drop 8).take 4 == [0x57, 0x45, 0x42, 0x50]
  | .gif => startsWith bytes [0x47, 0x49, 0x46, 0x38, 0x37, 0x61] ||
      startsWith bytes [0x47, 0x49, 0x46, 0x38, 0x39, 0x61]

structure IngestImageAttachment where
  position : ℤ
  mediaType : ImageMediaType
  byteSize : ℕ
  sha256 : String
  contentBase64 : Option String
deriving DecidableEq, Repr

structure ValidatedImageAttachment where
  position : ℤ
  mediaType : ImageMediaType
  byteSize : ℤ
  sha256 : List UInt8
  content : Option (List UInt8)
deriving DecidableEq, Repr

def hexValue (c : Char) : Option ℕ :=
  if '0' ≤ c ∧ c ≤ '9' then some (c.toNat - 48)
  else if 'a' ≤ c ∧ c ≤ 'f' then some (c.toNat - 87)
  else if 'A' ≤ c ∧ c ≤ 'F' then some (c.toNat - 55)
  else none

/-- `hex::decode`: digits of either case, two for each byte. -/
def hexDecode : List Char → Option (List UInt8)
  | [] => some []
  | [_] => none
  | high :: low :: rest => do
    let byte := 16 * (← hexValue high) + (← hexValue low)
    return UInt8.ofNat byte :: (← hexDecode rest)

def decodeSha256 (value : String) : Except AppError (List UInt8) :=
  match hexDecode (trim value).toList with
  | none => .error (.validation "image attachment sha256 must be lowercase hexadecimal")
  | some decoded =>
    if decoded.length ≠ 32 ∨ trim value ≠ hexEncode decoded then
      .error (.validation "image attachment sha256 must be 64 lowercase hexadecimal characters")
    else .ok decoded

variable [Sha256] [Base64]

def decodeContent (attachment : IngestImageAttachment) (encoded : String) (expectedSize : ℕ)
    (expectedSha256 : List UInt8) : Except AppError (List UInt8) :=
  if (utf8 encoded).length > maxBase64ImageCharacters then
    .error (.validation "image attachment content exceeds the decoded size limit")
  else match Base64.decode encoded with
    | none => .error (.validation "image attachment content_base64 is invalid")
    | some content =>
      if content.length ≠ expectedSize then
        .error (.validation "image attachment byte_size does not match decoded content")
      else if Sha256.digestBytes content ≠ expectedSha256 then
        .error (.validation "image attachment sha256 does not match decoded content")
      else if !attachment.mediaType.matchesSignature content then
        .error (.validation "image attachment media_type does not match its file signature")
      else .ok content

def validateOne (positions : List ℤ) (aggregateBytes : ℕ) (attachment : IngestImageAttachment) :
    Except AppError ValidatedImageAttachment := do
  if attachment.position < 0 || positions.contains attachment.position then
    throw (.validation "image attachment positions must be unique non-negative integers")
  if attachment.byteSize = 0 ∨ attachment.byteSize > maxImageAttachmentBytesPerEvent then
    throw (.validation s!"image attachment byte_size must be between 1 and {maxImageAttachmentBytesPerEvent}")
  if aggregateBytes + attachment.byteSize > maxImageAttachmentBytesPerEvent then
    throw (.validation s!"event image attachments must total at most {maxImageAttachmentBytesPerEvent} bytes")
  let sha256 ← decodeSha256 attachment.sha256
  let content ← attachment.contentBase64.mapM fun encoded =>
    decodeContent attachment encoded attachment.byteSize sha256
  return {
    position := attachment.position
    mediaType := attachment.mediaType
    byteSize := attachment.byteSize
    sha256
    content }

def validateFrom (positions : List ℤ) (aggregateBytes : ℕ) :
    List IngestImageAttachment → Except AppError (List ValidatedImageAttachment)
  | [] => .ok []
  | attachment :: rest => do
    let validated ← validateOne positions aggregateBytes attachment
    let others ← validateFrom (positions ++ [attachment.position]) (aggregateBytes + attachment.byteSize) rest
    return validated :: others

def validateImageAttachments (attachments : List IngestImageAttachment) :
    Except AppError (List ValidatedImageAttachment) := do
  if attachments.length > maxImageAttachmentsPerEvent then
    throw (.validation s!"event attachments must contain at most {maxImageAttachmentsPerEvent} images")
  let validated ← validateFrom [] 0 attachments
  return validated.insertionSort fun x y => x.position ≤ y.position

/-- What the attachments table asks of a row. -/
structure ValidatedImageAttachment.Storable (attachment : ValidatedImageAttachment) : Prop where
  position : 0 ≤ attachment.position
  byteSize : 0 < attachment.byteSize ∧ attachment.byteSize ≤ maxImageAttachmentBytesPerEvent
  sha256 : attachment.sha256.length = 32
  content : ∀ content ∈ attachment.content, (content.length : ℤ) = attachment.byteSize

structure AllStorable (attachments : List ValidatedImageAttachment) : Prop where
  each : ∀ attachment ∈ attachments, attachment.Storable
  positions : (attachments.map ValidatedImageAttachment.position).Nodup

omit [Sha256] [Base64] in
theorem decodeSha256_length {value : String} {decoded : List UInt8} (h : decodeSha256 value = .ok decoded) :
    decoded.length = 32 := by
  unfold decodeSha256 at h
  split at h
  · cases h
  · split_ifs at h with hshape
    cases h
    exact not_not.mp (not_or.mp hshape).1

theorem decodeContent_length {attachment : IngestImageAttachment} {encoded : String} {size : ℕ}
    {sha256 content : List UInt8} (h : decodeContent attachment encoded size sha256 = .ok content) :
    content.length = size := by
  unfold decodeContent at h
  split_ifs at h
  split at h
  · cases h
  · next decoded _ =>
    by_cases hsize : decoded.length = size
    · split_ifs at h
      all_goals cases h
      exact hsize
    · rw [if_pos hsize] at h
      cases h

theorem validateOne_ok {positions : List ℤ} {aggregateBytes : ℕ} {attachment : IngestImageAttachment}
    {validated : ValidatedImageAttachment} (h : validateOne positions aggregateBytes attachment = .ok validated) :
    validated.Storable ∧ validated.position = attachment.position ∧ attachment.position ∉ positions := by
  unfold validateOne at h
  have hposition : ¬ (decide (attachment.position < 0) || positions.contains attachment.position) = true := by
    intro hbad
    rw [if_pos hbad] at h
    cases h
  simp only [if_neg hposition] at h
  have hsize : ¬ (attachment.byteSize = 0 ∨ attachment.byteSize > maxImageAttachmentBytesPerEvent) := by
    intro hbad
    rw [if_pos hbad] at h
    cases h
  have haggregate : ¬ aggregateBytes + attachment.byteSize > maxImageAttachmentBytesPerEvent := by
    intro hbad
    simp only [if_neg hsize, if_pos hbad] at h
    cases h
  simp only [if_neg hsize, if_neg haggregate] at h
  obtain ⟨sha256, hsha256, h⟩ := bind_eq_ok.mp h
  obtain ⟨content, hcontent, h⟩ := bind_eq_ok.mp h
  cases h
  simp only [Bool.or_eq_true, decide_eq_true_eq, List.contains_iff_mem, not_or, not_lt] at hposition hsize
  refine ⟨⟨hposition.1, ⟨?_, ?_⟩, decodeSha256_length hsha256, ?_⟩, rfl, hposition.2⟩
  · exact Int.natCast_pos.mpr (Nat.pos_of_ne_zero hsize.1)
  · exact Int.ofNat_le.mpr hsize.2
  · cases hencoded : attachment.contentBase64 with
    | none =>
      rw [hencoded] at hcontent
      cases hcontent
      simp
    | some encoded =>
      rw [hencoded] at hcontent
      obtain ⟨decoded, hdecoded, hdone⟩ := bind_eq_ok.mp (show (do
        let decoded ← decodeContent attachment encoded attachment.byteSize sha256
        return some decoded) = .ok content from hcontent)
      cases hdone
      rintro _ ⟨⟩
      exact congrArg Nat.cast (decodeContent_length hdecoded)

theorem validateFrom_ok {positions : List ℤ} {aggregateBytes : ℕ} {attachments : List IngestImageAttachment}
    {validated : List ValidatedImageAttachment} (h : validateFrom positions aggregateBytes attachments = .ok validated) :
    AllStorable validated ∧ ∀ attachment ∈ validated, attachment.position ∉ positions := by
  induction attachments generalizing positions aggregateBytes validated with
  | nil =>
    cases h
    exact ⟨⟨by simp, List.nodup_nil⟩, by simp⟩
  | cons attachment rest ih =>
    obtain ⟨first, hfirst, h⟩ := bind_eq_ok.mp h
    obtain ⟨others, hothers, h⟩ := bind_eq_ok.mp h
    cases h
    obtain ⟨hstorable, hposition, hfree⟩ := validateOne_ok hfirst
    obtain ⟨hrest, hapart⟩ := ih hothers
    refine ⟨⟨List.forall_mem_cons.mpr ⟨hstorable, hrest.each⟩, List.nodup_cons.mpr ⟨?_, hrest.positions⟩⟩, ?_⟩
    · intro hmem
      obtain ⟨other, hother, hsame⟩ := List.mem_map.mp hmem
      apply hapart other hother
      simp [hsame, hposition]
    · intro other hother
      obtain rfl | hlater := List.mem_cons.mp hother
      · exact hposition ▸ hfree
      · exact fun hmem => hapart other hlater (List.mem_append_left _ hmem)

theorem validateImageAttachments_ok {attachments : List IngestImageAttachment}
    {validated : List ValidatedImageAttachment} (h : validateImageAttachments attachments = .ok validated) :
    AllStorable validated := by
  unfold validateImageAttachments at h
  split_ifs at h
  · cases h
  · obtain ⟨unsorted, hunsorted, h⟩ := bind_eq_ok.mp h
    cases h
    have hperm := List.perm_insertionSort (fun x y : ValidatedImageAttachment => x.position ≤ y.position) unsorted
    obtain ⟨hall, -⟩ := validateFrom_ok hunsorted
    refine ⟨fun attachment hattachment => hall.each attachment (hperm.mem_iff.mp hattachment), ?_⟩
    exact (hperm.map _).nodup_iff.mpr hall.positions

end Attachments

end AbyssBackend
