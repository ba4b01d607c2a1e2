import AbyssBackend.Storage.InSession
import AbyssBackend.Storage.Replays
import AbyssBackend.Storage.SessionSearch

namespace AbyssBackend.Storage

open Search Text

section Searches

variable [Sha256] [CaseMapping] [Base64] [TrigramIndex] [Iteration] {store : Store}

/-- What both searches answer is what reading every piece of the owner's events finds. -/
theorem Reachable.search_scan (h : Reachable store) (hdigests : store.DigestsApart) (owner : Uuid) :
    (∀ query validated, SessionSearchQuery.validate query = .ok validated →
      ∃ response, sessionSearch owner query store = .ok response ∧
        response.totalSessions = (foundSessions (scanEvents owner query store)).length ∧
        response.items.map resultSession = foundPage (scanEvents owner query store)
          ((query.page.getD 1 - 1) * query.pageSize.getD defaultPageSize) (query.pageSize.getD defaultPageSize)) ∧
    ∀ session ∈ store.sessions, session.userId = owner → ∀ query text, InSessionSearchQuery.validate query = .ok text →
      ∃ response, searchInSession owner session.id query store = .ok response ∧
        response.hits.map (responseHit response) =
          (scanSession owner session.id query.q store).take maxInSessionHits ∧
        (response.truncated = true ↔ maxInSessionHits < (scanSession owner session.id query.q store).length) := by
  refine ⟨fun query validated hvalid => ?_, fun session hsession howner query text hvalid => ?_⟩
  · obtain ⟨response, hresponse, htotal, hitems⟩ := h.sound.sessionSearch owner hdigests hvalid
    have hasks := SessionSearchQuery.validate_spec hvalid
    rw [hasks.offset, hasks.pageSize] at hitems
    exact ⟨response, hresponse, htotal, hitems⟩
  · exact h.sound.searchInSession hdigests (hasOwnSession_of_mem hsession howner) hvalid

end Searches

section Batch

open Fixtures

local instance scanDigest : Sha256 := cargoDigest

local instance scanContent : Base64 := noContent

local instance scanCase : CaseMapping := asciiCase

/-- An index whose rows all hold the trigrams, as the one row here does. -/
local instance scanIndex : TrigramIndex where
  isMatch _ _ := true
  complete _ _ _ _ := rfl

local instance scanIteration : Iteration where
  order _ items := items
  perm _ _ := .refl _

def goTest : SessionSearchQuery where
  q := " GO te "
  fromTime := none
  toTime := none
  agentName := []
  llmProvider := []
  llmModel := []
  eventType := none
  page := none
  pageSize := none

def goTestValidated : ValidatedSearchQuery where
  text := "GO te"
  fromTime := none
  toTime := none
  agentNames := []
  llmProviders := []
  llmModels := []
  eventType := none
  page := 1
  pageSize := 20
  offset := 0

set_option maxRecDepth 4000 in
theorem search_scan_batch :
    (∃ response, sessionSearch 1 goTest batchStore = .ok response ∧ response.totalSessions = 1 ∧
      response.items.map resultSession = [⟨101, 2, 2, [(106, true), (102, true)]⟩]) ∧
    ∃ response, searchInSession 1 101 ⟨"go te"⟩ batchStore = .ok response ∧
      response.hits.map (responseHit response) =
        [⟨106, 0, .text, true, some [(3, 8)]⟩, ⟨102, 0, .text, true, some [(3, 8)]⟩] ∧
      (response.truncated = true ↔ maxInSessionHits < 2) := by
  have hreachable : Reachable batchStore := .ingest (.start [1]) batch 1 10 (draws 100)
  obtain ⟨hsessions, hin⟩ := Reachable.search_scan hreachable (by decide) 1
  constructor
  · have hfound : foundSessions (scanEvents 1 goTest batchStore) = [101] := by decide
    have hpage : foundPage (scanEvents 1 goTest batchStore) 0 20 = [⟨101, 2, 2, [(106, true), (102, true)]⟩] := by
      decide
    obtain ⟨response, hresponse, htotal, hitems⟩ := hsessions goTest goTestValidated rfl
    exact ⟨response, hresponse, htotal.trans (congrArg List.length hfound), hitems.trans hpage⟩
  · have hscan : scanSession 1 101 "go te" batchStore =
        [⟨106, 0, .text, true, some [(3, 8)]⟩, ⟨102, 0, .text, true, some [(3, 8)]⟩] := by decide
    obtain ⟨session, hsession, hid, howner⟩ : ∃ session ∈ batchStore.sessions, session.id = 101 ∧ session.userId = 1 := by
      decide
    obtain ⟨response, hresponse, hhits, htruncated⟩ := hin session hsession howner ⟨"go te"⟩ "go te" rfl
    rw [hid] at hresponse hhits htruncated
    rw [hscan] at hhits htruncated
    exact ⟨response, hresponse, hhits, htruncated⟩

end Batch

end AbyssBackend.Storage
