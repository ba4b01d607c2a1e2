import AbyssBackend.Api.Runs
import AbyssBackend.Storage.Confined

namespace AbyssBackend.Api

open Attachments Attempts Search Storage Streams Text

section Received

variable {deliveries : List Delivery} {delivery : Delivery}

theorem received_ids (deliveries : List Delivery) (eventId : String) :
    eventId ∈ (deliveries.foldl receive []).map (fun known => known.event.eventId) ↔
      eventId ∈ deliveries.map fun known => known.event.eventId := by
  induction deliveries using List.reverseRecOn with
  | nil => rfl
  | append_singleton deliveries delivery ih =>
    rw [List.foldl_concat, receive, List.map_append, List.mem_append, ← ih]
    split
    · next hknown =>
      constructor
      · exact Or.inl
      · rintro (hold | hnew)
        · exact hold
        · rw [List.mem_singleton.mp hnew]
          exact hknown
    · rw [List.map_append, List.mem_append]

/-- What is kept of deliveries is the first under each event id. -/
theorem mem_received : delivery ∈ deliveries.foldl receive [] ↔
    deliveries.find? (fun other => other.event.eventId == delivery.event.eventId) = some delivery := by
  induction deliveries using List.reverseRecOn with
  | nil => simp
  | append_singleton deliveries last ih =>
    have hknown : (deliveries.find? fun other => other.event.eventId == delivery.event.eventId) = none ↔
        delivery.event.eventId ∉ (deliveries.foldl receive []).map fun known => known.event.eventId := by
      rw [received_ids]
      simp
    rw [List.foldl_concat, receive, List.find?_append]
    split
    · next hold =>
      rw [ih]
      cases hfound : deliveries.find? fun other => other.event.eventId == delivery.event.eventId with
      | some found => simp
      | none =>
        have hdifferent : last.event.eventId ≠ delivery.event.eventId := fun hsame =>
          hknown.mp hfound (hsame ▸ hold)
        simp [hdifferent]
    · next hnew =>
      rw [List.mem_append, ih, List.mem_singleton]
      cases hfound : deliveries.find? fun other => other.event.eventId == delivery.event.eventId with
      | some found =>
        have hnot : delivery ≠ last := by
          rintro rfl
          rw [hknown.mpr hnew] at hfound
          cases hfound
        simp [hnot]
      | none =>
        by_cases hsame : last.event.eventId = delivery.event.eventId
        · simp [hsame, eq_comm]
        · have hnot : delivery ≠ last := fun heq => hsame (congrArg (fun known => known.event.eventId) heq.symm)
          simp [hsame, hnot]

end Received

section Reads

variable [Sha256] [Base64] [LawfulBase64] [CaseMapping] [TrigramIndex] [Iteration] [UserTexts] [TimeZones] [DebugText]
  {state : AppState} {headers : HeaderMap} {requests : List (Request × Draws)} {responses : List Response}
  {store after : Store}

/-- The first event that responses acknowledge under an event id. -/
def FirstAcknowledged (requests : List (Request × Draws)) (responses : List Response) (event : IngestUsageEvent) :
    Prop :=
  (acknowledged requests responses).find? (fun other => other.eventId == event.eventId) = some event

omit [Sha256] [Base64] [LawfulBase64] [CaseMapping] [TrigramIndex] [Iteration] [UserTexts] [TimeZones] [DebugText] in
theorem mem_received_acknowledged {delivery : Delivery} :
    delivery ∈ ((acknowledged requests responses).map (Delivery.mk ownerId)).foldl receive [] ↔
      delivery.userId = ownerId ∧ FirstAcknowledged requests responses delivery.event := by
  obtain ⟨userId, event⟩ := delivery
  rw [mem_received, List.find?_map, Option.map_eq_some_iff]
  constructor
  · rintro ⟨found, hfound, hsame⟩
    cases hsame
    exact ⟨rfl, hfound⟩
  · rintro ⟨rfl, hfirst⟩
    exact ⟨event, hfirst, rfl⟩

omit [LawfulBase64] in
theorem serve_usageEvent (hadmits : state.Admits headers) (eventPk : Uuid) (draws : Draws) :
    serve state store ⟨headers, .ok (.usageEvent eventPk)⟩ draws = (intoResponse
      ((Body.usageEvent <$> SqliteFtsBackend.usageEvent store ownerId eventPk).mapError .app), store) :=
  congrArg (fun result => (intoResponse result, store)) (authenticated_admits hadmits _)

end Reads

namespace Fixtures

/-- SHA-256 of `correct-token`. -/
def tokenDigest : List UInt8 := [0x5f, 0x6a, 0x2a, 0x6b, 0xa6, 0x31, 0x61, 0xfc, 0x34, 0xd2, 0xa9, 0x04, 0x8e, 0x2c,
  0x81, 0x61, 0x9c, 0x03, 0x19, 0x8b, 0x0e, 0xf8, 0xb9, 0xcb, 0xc7, 0x59, 0x13, 0x32, 0x07, 0x8b, 0x63, 0x7f]

/-- SHA-256 of the token and of the one image. -/
abbrev requestDigest : Sha256 := ⟨fun bytes => if bytes = headerBytes then headerDigest else tokenDigest⟩

abbrev requestBase64 : Base64 := ⟨fun text => PaddedBase64.decode text.toList⟩

abbrev quotedText : DebugText := ⟨id⟩

def bearing (value : String) : HeaderMap := [(authorization, value.toList.map fun c => UInt8.ofNat c.toNat)]

def localState : AppState where
  environment := "local"
  maxIngestBatchSize := 1000
  summaryScanLimit := 100000
  defaultPageSize := 100
  identity := ⟨tokenDigest, rfl⟩
  owners _ := none

/-- The same batch without a token, by a method that is not allowed, with the token, and with it again. -/
def requests : List (Request × Draws) :=
  [(⟨[], .ok (.ingestEvents attachedBatch)⟩, attachedDraws),
    (⟨bearing "Bearer correct-token", .error .methodNotAllowed⟩, attachedDraws),
    (⟨bearing " bearer\tcorrect-token", .ok (.ingestEvents attachedBatch)⟩, attachedDraws),
    (⟨bearing "Bearer correct-token", .ok (.ingestEvents attachedBatch)⟩, attachedDraws)]

end Fixtures

section Requests

open Fixtures

local instance acknowledgedDigest : Sha256 := requestDigest

local instance acknowledgedContent : Base64 := requestBase64

local instance acknowledgedContent_lawful : LawfulBase64 := ⟨fun _ _ => PaddedBase64.decode_eq_some⟩

local instance acknowledgedCase : CaseMapping := Storage.Fixtures.asciiCase

local instance acknowledgedIndex : TrigramIndex := confinedIndex

local instance acknowledgedOrder : Iteration := givenOrder

local instance acknowledgedTexts : UserTexts := Storage.Fixtures.asciiTexts

local instance acknowledgedZones : TimeZones := Storage.Fixtures.utcZone

local instance acknowledgedDebug : DebugText := quotedText

end Requests

end AbyssBackend.Api
