import AbyssBackend.Api.Acknowledged

namespace AbyssBackend.Api

open Attachments Attempts PaddedBase64 Search Storage Streams Text

section HeaderValues

theorem utf8_eq_flatMap (text : String) : utf8 text = text.toList.flatMap String.utf8EncodeChar := by
  have hbytes : ∀ chars : List Char, chars.utf8Encode.data.toList = chars.flatMap String.utf8EncodeChar := by
    intro chars
    induction chars with
    | nil => rfl
    | cons c chars ih =>
      rw [List.utf8Encode_cons, ByteArray.data_append, Array.toList_append, ih]
      simp [List.utf8Encode_singleton]
  rw [← hbytes, ← String.toByteArray_ofList, String.ofList_toList]
  rfl

def plainByte (byte : UInt8) : Bool := (32 ≤ byte.toNat && byte.toNat ≠ 127) || byte.toNat = 9

theorem headerValue_eq_ok {text : String}
    (h : ∀ c ∈ text.toList, ∀ byte ∈ String.utf8EncodeChar c, plainByte byte = true) : headerValue text = .ok text := by
  apply if_pos
  rw [utf8_eq_flatMap, List.all_eq_true]
  intro byte hbyte
  obtain ⟨c, hc, hmem⟩ := List.mem_flatMap.mp hbyte
  exact h c hc byte hmem

theorem headerValue_disposition (mediaType : ImageMediaType) :
    headerValue (contentDisposition mediaType) = .ok (contentDisposition mediaType) := by
  cases mediaType <;> decide +kernel

theorem toList_etag (sha256 : String) : (etag sha256).toList = '\x22' :: (sha256.toList ++ ['\x22']) := by
  show (("\x22" ++ sha256) ++ "\x22").toList = _
  rw [String.toList_append, String.toList_append]
  rfl

theorem headerValue_etag (bytes : List UInt8) :
    headerValue (etag (hexEncode bytes)) = .ok (etag (hexEncode bytes)) := by
  have hquote : ∀ byte ∈ String.utf8EncodeChar '\x22', plainByte byte = true := List.all_eq_true.mp (by decide)
  have hdigits : ∀ c ∈ lowercaseHexDigits, ∀ byte ∈ String.utf8EncodeChar c, plainByte byte = true := by
    have hall : (lowercaseHexDigits.all fun c => (String.utf8EncodeChar c).all plainByte) = true := by decide
    exact fun c hc => List.all_eq_true.mp (List.all_eq_true.mp hall c hc)
  apply headerValue_eq_ok
  rw [toList_etag]
  intro c hc
  obtain rfl | hc := List.mem_cons.mp hc
  · exact hquote
  · obtain hdigit | hlast := List.mem_append.mp hc
    · exact hdigits c (hexEncode_lowercase bytes c hdigit)
    · exact List.mem_singleton.mp hlast ▸ hquote

/-- A stored image is always sent. -/
theorem imageResponse_eq (mediaType : ImageMediaType) (bytes content : List UInt8) :
    imageResponse ⟨mediaType, hexEncode bytes, content⟩ = .ok
      { headers := [("content-type", mediaType.asStr), ("content-disposition", contentDisposition mediaType),
          ("etag", etag (hexEncode bytes)), ("cache-control", "private, no-store"),
          ("x-content-type-options", "nosniff"), ("cross-origin-resource-policy", "same-origin")]
        content } := by
  rw [imageResponse]
  dsimp only
  rw [headerValue_disposition, headerValue_etag]
  rfl

end HeaderValues

section Served

variable [Sha256] [Base64] [LawfulBase64] [CaseMapping] [TrigramIndex] [Iteration] [UserTexts] [TimeZones] [DebugText]
  {state : AppState} {headers : HeaderMap} {requests : List (Request × Draws)} {responses : List Response}
  {store after : Store}

/-- An answer with an image that was sent: of the type it names, under its digest, and never to be cached or embedded
elsewhere. -/
structure Serves (requests : List (Request × Draws)) (responses : List Response) (image : ImageResponse) : Prop where
  sent : ∃ event, FirstAcknowledged requests responses event ∧ ∃ sent ∈ event.attachments,
    ∃ encoded ∈ sent.contentBase64, encoded.toList = encode image.content ∧
      sent.mediaType.matchesSignature image.content = true ∧
      ("content-type", sent.mediaType.asStr) ∈ image.headers ∧
      ("content-disposition", contentDisposition sent.mediaType) ∈ image.headers
  etag : ("etag", etag (hexEncode (Sha256.digestBytes image.content))) ∈ image.headers
  cached : ("cache-control", "private, no-store") ∈ image.headers
  sniffed : ("x-content-type-options", "nosniff") ∈ image.headers
  embedded : ("cross-origin-resource-policy", "same-origin") ∈ image.headers

omit [LawfulBase64] in
theorem serve_imageAttachment (hadmits : state.Admits headers) (attachmentId : Uuid) (draws : Draws) :
    serve state store ⟨headers, .ok (.imageAttachment attachmentId)⟩ draws = (intoResponse
      ((Storage.imageAttachment store ownerId attachmentId >>= fun attachment =>
        imageResponse attachment >>= fun response => .ok (.image response)).mapError .app), store) :=
  congrArg (fun result => (intoResponse result, store)) (authenticated_admits hadmits _)

/-- Whoever bears the token is sent, for any id, an image as it was ingested or that there is none, and never an
error of the server. -/
theorem images_served (hrun : serveAll state { users := [ownerId] } requests = (responses, after))
    (hadmits : state.Admits headers) (attachmentId : Uuid) (draws : Draws) :
    (∃ image, (serve state after ⟨headers, .ok (.imageAttachment attachmentId)⟩ draws).1 = ⟨200, .image image⟩ ∧
      Serves requests responses image) ∨
    ∃ message : String, (serve state after ⟨headers, .ok (.imageAttachment attachmentId)⟩ draws).1 =
      ⟨404, .error s!"not found: {message}"⟩ := by
  have hdelivered := @serveAll_delivered _ _ _ _ _ _ _ _ state _ requests _ (Delivered.start [ownerId])
  rw [hrun] at hdelivered
  rw [serve_imageAttachment hadmits]
  unfold Storage.imageAttachment
  split
  · exact Or.inr ⟨_, rfl⟩
  · next row hfound =>
    split
    · exact Or.inr ⟨_, rfl⟩
    · next content hcontent =>
      have hrow := List.mem_of_find?_eq_some hfound
      obtain ⟨delivery, hdelivery, sent, hsent, hof⟩ := hdelivered.attachment_sent hrow
      obtain ⟨-, hfirst⟩ := mem_received_acknowledged.mp hdelivery
      obtain ⟨encoded, hencoded, htext, hlength, hdigest, hmedia⟩ : ∃ encoded ∈ sent.contentBase64,
          encoded.toList = encode content ∧ content.length = sent.byteSize ∧
            Sha256.digestBytes content = row.sha256 ∧ sent.mediaType.matchesSignature content = true := by
        have hstored := hof.content
        rw [hcontent] at hstored
        generalize sent.contentBase64 = declared at hstored
        cases hstored with
        | some hbytes => exact ⟨_, rfl, hbytes⟩
      have hsize : ¬ (content.length : ℤ) ≠ row.byteSize := by
        rw [hof.byteSize, hlength]
        exact fun hne => hne rfl
      rw [if_neg hsize, ← hdigest, hof.mediaType]
      simp only [bind, Except.bind, imageResponse_eq]
      refine Or.inl ⟨_, rfl, ⟨delivery.event, hfirst, sent, hsent, encoded, hencoded, htext, hmedia, ?_, ?_⟩, ?_, ?_, ?_,
        ?_⟩
      all_goals simp

end Served

section Requests

open Fixtures

local instance imagesDigest : Sha256 := requestDigest

local instance imagesContent : Base64 := requestBase64

local instance imagesContent_lawful : LawfulBase64 := ⟨fun _ _ => decode_eq_some⟩

local instance imagesCase : CaseMapping := Storage.Fixtures.asciiCase

local instance imagesIndex : TrigramIndex := confinedIndex

local instance imagesOrder : Iteration := givenOrder

local instance imagesTexts : UserTexts := Storage.Fixtures.asciiTexts

local instance imagesZones : TimeZones := Storage.Fixtures.utcZone

local instance imagesDebug : DebugText := quotedText

theorem images_served_requests : ∃ responses after,
    serveAll localState { users := [ownerId] } requests = (responses, after) ∧
    ∃ image, (serve localState after ⟨bearing "Bearer correct-token", .ok (.imageAttachment 101)⟩ attachedDraws).1 =
      ⟨200, .image image⟩ ∧ Serves requests responses image := by
  have hadmits : localState.Admits (bearing "Bearer correct-token") := by decide +kernel
  have hstatus : (serve localState (serveAll localState { users := [ownerId] } requests).2
      ⟨bearing "Bearer correct-token", .ok (.imageAttachment 101)⟩ attachedDraws).1.status = 200 := by decide +kernel
  cases hrun : serveAll localState { users := [ownerId] } requests with
  | mk responses after =>
    rw [hrun] at hstatus
    refine ⟨responses, after, rfl, ?_⟩
    obtain hserved | ⟨message, hmissing⟩ := images_served hrun hadmits 101 attachedDraws
    · exact hserved
    · rw [hmissing] at hstatus
      cases hstatus

end Requests

end AbyssBackend.Api
