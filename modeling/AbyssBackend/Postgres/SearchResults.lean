import AbyssBackend.Postgres.Integrity
import AbyssBackend.Postgres.SearchIndex
import AbyssBackend.Postgres.SessionSearch

namespace AbyssBackend.Postgres

open Attempts Drafts Runs Search Storage Streams Text

section Runs

variable [Sha256] {before after : World}

omit [Sha256] in
theorem World.Worked.tables {worker worker' : Worker} {action : WorkerAction}
    (h : before.Worked worker action worker' after) :
    ∃ outbox, after.database = { before.database with committed.outbox := outbox } := by
  cases h <;> exact ⟨_, rfl⟩

/-- No table but the outbox matters to what holds between the tables and the transactions. -/
theorem Related.setOutbox {database : Database} (h : Related database) (outbox : List OutboxRow) :
    Related { database with committed.outbox := outbox } :=
  ⟨⟨⟨h.keys.devices, h.keys.sessions⟩, h.keys.events, h.keys.eventIds, h.keys.streamFacts, h.keys.attachments,
      h.keys.attachmentPlaces, h.keys.captures, h.keys.captureKeys, h.keys.captureEvents⟩,
    ⟨h.linked.sessionDevices, h.linked.eventTypes, h.linked.devices, h.linked.sessions, h.linked.streamFacts,
      h.linked.attachments⟩, h.facts, h.placed⟩

variable [Base64]

theorem Related.world {action : Action} (h : Related before.database) (hstep : before.Stepped action after) :
    Related after.database := by
  cases hstep with
  | ingest action database hdatabase => exact h.step hdatabase
  | spawn workerId batchSize hnew => exact h
  | work index action worker worker' moved hget hworked =>
    obtain ⟨outbox, hmoved⟩ := hworked.tables
    show Related moved.database
    rw [hmoved]
    exact h.setOutbox outbox
  | tick now hle => exact h

/-- What is committed stays. -/
theorem World.Stepped.events {action : Action} (hstep : before.Stepped action after) :
    ∀ event ∈ before.events, event ∈ after.events := by
  intro event hevent
  cases hstep with
  | ingest action database hdatabase =>
    cases hdatabase with
    | commit index transaction hget hrunning htodo => exact List.mem_append_left _ hevent
    | _ => exact hevent
  | work index action worker worker' moved hget hworked =>
    show event ∈ moved.events
    rw [hworked.database.1]
    exact hevent
  | _ => exact hevent

theorem reaches_events (h : Reaches World.step anyStep before after) : ∀ event ∈ before.events, event ∈ after.events :=
  h.invariant (P := fun world => ∀ event ∈ before.events, event ∈ world.events) (fun _ hevent => hevent)
    fun _ _ _ hkept _ hstep event hevent => (World.stepped hstep).events event (hkept event hevent)

end Runs

section Requests

variable {inRange : Option DateTime → Option DateTime → DateTime → Prop} {userId : Uuid} {query : ValidatedSearchQuery}

def SearchDocument.keyword (document : SearchDocument) : KeywordField → String
  | .agentName => document.agentName
  | .llmProvider => document.llmProvider
  | .llmModel => document.llmModel
  | .eventType => document.eventType

/-- What a filter lets through; how times are compared is left to Elasticsearch. -/
def SearchFilter.Admits (inRange : Option DateTime → Option DateTime → DateTime → Prop) (document : SearchDocument) :
    SearchFilter → Prop
  | .userId userId => document.userId = userId
  | .observedAt gte lt => inRange gte lt (timestampFromMicros document.observedAt)
  | .term field value => document.keyword field = value
  | .terms field values => document.keyword field ∈ values

/-- The event is the owner's, and one that the query asks for. -/
structure Passes (inRange : Option DateTime → Option DateTime → DateTime → Prop) (userId : Uuid)
    (query : ValidatedSearchQuery) (event : EventRow) : Prop where
  userId : event.userId = userId
  observedAt : query.fromTime.isSome ∨ query.toTime.isSome →
    inRange query.fromTime query.toTime (timestampFromMicros event.observedAt)
  agentNames : query.agentNames ≠ [] → event.agentName ∈ query.agentNames
  llmProviders : query.llmProviders ≠ [] → event.llmProvider ∈ query.llmProviders
  llmModels : query.llmModels ≠ [] → event.llmModel ∈ query.llmModels
  eventType : ∀ eventType, query.eventType = some eventType → event.eventType = eventType

theorem mem_pushTermsFilter {filters : List SearchFilter} {field : KeywordField} {values : List String}
    {filter : SearchFilter} :
    filter ∈ pushTermsFilter filters field values ↔ filter ∈ filters ∨ values ≠ [] ∧ filter = .terms field values := by
  unfold pushTermsFilter
  cases values <;> simp

theorem mem_pushTermFilter {filters : List SearchFilter} {field : KeywordField} {value : Option String}
    {filter : SearchFilter} :
    filter ∈ pushTermFilter filters field value ↔ filter ∈ filters ∨ ∃ v, value = some v ∧ filter = .term field v := by
  cases value <;> simp [pushTermFilter]

/-- The filters of a request let through exactly the documents of the owner's events that the query asks for. -/
theorem searchRequest_admits (event : EventRow) :
    (∀ filter ∈ (searchRequest userId query).filters, filter.Admits inRange (.fromEvent event)) ↔
      Passes inRange userId query event := by
  have hrange : ∀ filter : SearchFilter, filter ∈ (if query.fromTime.isSome || query.toTime.isSome then
      [SearchFilter.userId userId] ++ [.observedAt query.fromTime query.toTime] else [.userId userId]) ↔
      filter = .userId userId ∨ (query.fromTime.isSome ∨ query.toTime.isSome) ∧
        filter = .observedAt query.fromTime query.toTime := by
    intro filter
    split
    · next hsome => simp [Bool.or_eq_true_iff.mp hsome]
    · next hnone => simp [not_or.mp (mt Bool.or_eq_true_iff.mpr hnone)]
  simp only [searchRequest, mem_pushTermFilter, mem_pushTermsFilter, hrange]
  constructor
  · intro h
    exact
      { userId := h _ (Or.inl (Or.inl (Or.inl (Or.inl (Or.inl rfl)))))
        observedAt := fun hsome => h _ (Or.inl (Or.inl (Or.inl (Or.inl (Or.inr ⟨hsome, rfl⟩)))))
        agentNames := fun hsome => h _ (Or.inl (Or.inl (Or.inl (Or.inr ⟨hsome, rfl⟩))))
        llmProviders := fun hsome => h _ (Or.inl (Or.inl (Or.inr ⟨hsome, rfl⟩)))
        llmModels := fun hsome => h _ (Or.inl (Or.inr ⟨hsome, rfl⟩))
        eventType := fun eventType hsome => h _ (Or.inr ⟨eventType, hsome, rfl⟩) }
  · rintro h filter (((((rfl | ⟨hsome, rfl⟩) | ⟨hsome, rfl⟩) | ⟨hsome, rfl⟩) | ⟨hsome, rfl⟩) | ⟨eventType, hsome, rfl⟩)
    · exact h.userId
    · exact h.observedAt hsome
    · exact h.agentNames hsome
    · exact h.llmProviders hsome
    · exact h.llmModels hsome
    · exact h.eventType eventType hsome

end Requests

section Found

variable {inRange : Option DateTime → Option DateTime → DateTime → Prop} {userId : Uuid} {query : ValidatedSearchQuery}
  {tables : Tables} {index : SearchIndex}

/-- A hit that shows a document of the session. -/
structure RawMatchedHit.Of (hit : RawMatchedHit) (sessionPk : Uuid) (document : SearchDocument) : Prop where
  sessionPk : document.sessionPk = sessionPk
  eventType : hit.eventType = document.eventType
  llmProvider : hit.llmProvider = document.llmProvider
  llmModel : hit.llmModel = document.llmModel
  observedAt : hit.observedAt = timestampFromMicros document.observedAt

/-- A reply of Elasticsearch to a request: one hit for each session, with some documents of the session that the index
holds and every filter lets through. -/
structure Drawn (inRange : Option DateTime → Option DateTime → DateTime → Prop) (index : SearchIndex)
    (request : SearchRequest) (response : RawSearchResponse) : Prop where
  collapsed : (response.hits.map RawOuterHit.sessionPk).Nodup
  innerHits : ∀ hit ∈ response.hits, ∃ inner, hit.innerHits = some inner ∧ inner.hits ≠ [] ∧ ∀ raw ∈ inner.hits,
    ∃ document, index raw.eventPk = some document ∧ raw.Of hit.sessionPk document ∧
      ∀ filter ∈ request.filters, filter.Admits inRange document

/-- What a search shows of a hit: a committed event of the owner that the query asks for, and where it is in its
session. -/
structure MatchOf (inRange : Option DateTime → Option DateTime → DateTime → Prop) (tables : Tables) (userId : Uuid)
    (query : ValidatedSearchQuery) (sessionPk : Uuid) (raw : RawMatchedHit) (found : SessionSearchMatch) : Prop where
  event : ∃ event ∈ tables.events, event.id = raw.eventPk ∧ event.sessionPk = sessionPk ∧
    Passes inRange userId query event ∧ found.eventType = event.eventType ∧ found.llmProvider = event.llmProvider ∧
    found.llmModel = event.llmModel ∧ found.observedAt = timestampFromMicros event.observedAt
  eventPk : found.eventPk = raw.eventPk
  location : ∃ derived location, sessionStructure tables userId sessionPk = .ok derived ∧
    derived.eventPosition raw.eventPk = some location ∧ found.location = some location
  new : found.new = true
  fragments : List.Forall₂ (fun text fragment => Shows text.toList fragment.segments) (orderedFragments raw.highlight)
    found.fragments

/-- What a search shows of a session: what PostgreSQL has of it, and its hits in their order. -/
structure ResultOf (inRange : Option DateTime → Option DateTime → DateTime → Prop) (tables : Tables) (userId : Uuid)
    (query : ValidatedSearchQuery) (hit : RawOuterHit) (result : SessionSearchResult) : Prop where
  session : ∃ session ∈ tables.sessions, ∃ device ∈ tables.devices, session.id = hit.sessionPk ∧
    session.userId = userId ∧ device.id = session.deviceContextId ∧ device.userId = userId ∧
    result.sessionPk = session.id ∧ result.sessionId = session.sessionId ∧ result.agentName = session.agentName ∧
    result.agentVersion = session.agentVersion ∧ result.hostName = device.hostName ∧
    result.platform = device.platform ∧ result.startedAt = timestampFromMicros session.startedAt ∧
    result.endedAt = session.endedAt.map timestampFromMicros
  title : result.title = Postgres.title tables hit.sessionPk
  providers : result.providers = sortedDistinct (result.matches'.map SessionSearchMatch.llmProvider)
  models : result.models = sortedDistinct (result.matches'.map SessionSearchMatch.llmModel)
  matches' : ∃ inner, hit.innerHits = some inner ∧ result.matchCount = inner.total ∧
    result.newMatchCount = inner.total ∧
    List.Forall₂ (MatchOf inRange tables userId query hit.sessionPk) inner.hits result.matches'

/-- The response to a search: a result for every hit of the reply, in the order of the hits. -/
structure ResponseOf (inRange : Option DateTime → Option DateTime → DateTime → Prop) (tables : Tables) (userId : Uuid)
    (query : ValidatedSearchQuery) (reply : RawSearchResponse) (response : SessionSearchResponse) : Prop where
  text : response.query = query.text
  totalSessions : response.totalSessions = reply.sessionCount.getD 0
  page : response.page = query.page ∧ response.pageSize = query.pageSize
  hasMore : response.hasMore = true ↔ query.page * query.pageSize < reply.sessionCount.getD 0
  items : List.Forall₂ (ResultOf inRange tables userId query) reply.hits response.items

def foundMatches (hit : RawOuterHit) (inner : RawInnerHits) : SessionMatches :=
  ⟨hit.sessionPk, inner.total, inner.hits.map RawMatchedHit.event⟩

theorem Drawn.tryFrom {request : SearchRequest} {reply : RawSearchResponse} (h : Drawn inRange index request reply) :
    ∃ sessions, SearchMatchPage.tryFrom reply = .ok ⟨reply.sessionCount.getD 0, sessions⟩ ∧
      List.Forall₂ (fun hit found => ∃ inner, hit.innerHits = some inner ∧ found = foundMatches hit inner)
        reply.hits sessions := by
  have hall : ∀ hit ∈ reply.hits, ∃ found, RawOuterHit.matches' hit = .ok found ∧
      ∃ inner, hit.innerHits = some inner ∧ found = foundMatches hit inner := by
    intro hit hhit
    obtain ⟨inner, hinner, -⟩ := h.innerHits hit hhit
    refine ⟨foundMatches hit inner, ?_, inner, hinner, rfl⟩
    rw [RawOuterHit.matches', hinner]
    rfl
  obtain ⟨sessions, hsessions, hfound⟩ := mapM_all hall
  refine ⟨sessions, ?_, hfound⟩
  rw [SearchMatchPage.tryFrom, hsessions]
  rfl

/-- Sessions that are found once each get the details that there are of them. -/
theorem hydrateSessions_related {R : RawOuterHit → SessionMatches → Prop} {hits : List RawOuterHit}
    {found : List SessionMatches} {details : Tables.Table Uuid SearchSessionDetails} (h : List.Forall₂ R hits found)
    (hpks : (found.map SessionMatches.sessionPk).Nodup)
    (hdetails : ∀ session ∈ found, (details session.sessionPk).isSome) :
    List.Forall₂ (fun hit item => ∃ session ∈ found, ∃ of, R hit session ∧ details session.sessionPk = some of ∧
      item = session.result of) hits (hydrateSessions found details) := by
  induction h generalizing details with
  | nil => exact .nil
  | @cons hit session hits rest hrelated _ ih =>
    obtain ⟨hfresh, hpks⟩ := List.nodup_cons.mp hpks
    obtain ⟨hfirst, hrest⟩ := List.forall_mem_cons.mp hdetails
    obtain ⟨of, hof⟩ := Option.isSome_iff_exists.mp hfirst
    have hkept : ∀ other ∈ rest, Function.update details session.sessionPk none other.sessionPk =
        details other.sessionPk := by
      intro other hother
      apply Function.update_of_ne
      intro hsame
      exact hfresh (hsame ▸ List.mem_map_of_mem hother)
    simp only [hydrateSessions, hof]
    refine .cons ⟨session, List.mem_cons_self, of, hrelated, hof, rfl⟩ ?_
    refine (ih hpks fun other hother => (hkept other hother).symm ▸ hrest other hother).imp ?_
    rintro hit item ⟨other, hother, of', hrelated, hof', rfl⟩
    exact ⟨other, List.mem_cons_of_mem _ hother, of', hrelated, (hkept other hother).symm.trans hof', rfl⟩

theorem parsed_shows (texts : List String) :
    List.Forall₂ (fun text fragment => Shows text.toList fragment.segments) texts (texts.filterMap parseFragment) := by
  induction texts with
  | nil => exact .nil
  | cons text texts ih =>
    obtain ⟨segments, hparse, hshows⟩ := parseFragment_shows text
    rw [List.filterMap_cons, hparse]
    exact .cons hshows ih

end Found

section Hits

variable [Sha256] {inRange : Option DateTime → Option DateTime → DateTime → Prop} {userId : Uuid}
  {query : ValidatedSearchQuery} {tables : Tables} {index : SearchIndex} {reply : RawSearchResponse} {hit : RawOuterHit}

/-- Every document is that of an event there is. -/
def Sourced (index : SearchIndex) (tables : Tables) : Prop :=
  ∀ eventPk document, index eventPk = some document → ∃ event ∈ tables.events,
    event.id = eventPk ∧ document = .fromEvent event

structure HitOf (inRange : Option DateTime → Option DateTime → DateTime → Prop) (userId : Uuid)
    (query : ValidatedSearchQuery) (sessionPk : Uuid) (raw : RawMatchedHit) (event : EventRow) : Prop where
  id : event.id = raw.eventPk
  sessionPk : event.sessionPk = sessionPk
  passes : Passes inRange userId query event
  eventType : raw.eventType = event.eventType
  llmProvider : raw.llmProvider = event.llmProvider
  llmModel : raw.llmModel = event.llmModel
  observedAt : raw.observedAt = timestampFromMicros event.observedAt

omit [Sha256] in
theorem Drawn.events (h : Drawn inRange index (searchRequest userId query) reply) (hsourced : Sourced index tables)
    (hhit : hit ∈ reply.hits) : ∃ inner, hit.innerHits = some inner ∧ inner.hits ≠ [] ∧
      ∀ raw ∈ inner.hits, ∃ event ∈ tables.events, HitOf inRange userId query hit.sessionPk raw event := by
  obtain ⟨inner, hinner, hne, hraw⟩ := h.innerHits hit hhit
  refine ⟨inner, hinner, hne, fun raw hmem => ?_⟩
  obtain ⟨document, hdocument, hof, hadmits⟩ := hraw raw hmem
  obtain ⟨event, hevent, hid, rfl⟩ := hsourced _ document hdocument
  exact ⟨event, hevent, hid, hof.sessionPk, (searchRequest_admits event).mp hadmits, hof.eventType, hof.llmProvider,
    hof.llmModel, hof.observedAt⟩

theorem Integral.sessionDetails (h : Integral tables) {session : SessionRow} {device : DeviceRow}
    (hsession : session ∈ tables.sessions) (howner : session.userId = userId) (hdevice : device ∈ tables.devices)
    (hid : device.id = session.deviceContextId) {sessionIds : List Uuid} (hmem : session.id ∈ sessionIds) :
    sessionDetails tables userId sessionIds session.id = some ⟨session, device, title tables session.id⟩ := by
  unfold Postgres.sessionDetails
  apply Tables.ofPairs_of_mem
  · refine List.mem_map.mpr ⟨(session, device), List.mem_flatMap.mpr ⟨session, ?_, ?_⟩, rfl⟩
    · exact List.mem_filter.mpr ⟨hsession, by simp [howner, hmem]⟩
    · exact List.mem_map_of_mem (List.mem_filter.mpr ⟨hdevice, beq_iff_eq.mpr hid⟩)
  · intro details hdetails
    obtain ⟨⟨session', device'⟩, hpair, hsame⟩ := List.mem_map.mp hdetails
    obtain ⟨other, hother, hjoined⟩ := List.mem_flatMap.mp hpair
    obtain ⟨found, hfound, hpaired⟩ := List.mem_map.mp hjoined
    cases hpaired
    obtain ⟨hsessionId, rfl⟩ := Prod.mk.inj hsame
    obtain rfl := List.inj_on_of_nodup_map h.sessionIds (List.mem_filter.mp hother).1 hsession hsessionId
    have hdeviceId : device'.id = device.id := (beq_iff_eq.mp (List.mem_filter.mp hfound).2).trans hid.symm
    obtain rfl := List.inj_on_of_nodup_map h.deviceIds (List.mem_filter.mp hfound).1 hdevice hdeviceId
    rfl

/-- A session that is found is the owner's, and all of it is there. -/
theorem Drawn.session (h : Drawn inRange index (searchRequest userId query) reply) (hsourced : Sourced index tables)
    (hintegral : Integral tables) (hhit : hit ∈ reply.hits) :
    ∃ session ∈ tables.sessions, ∃ device ∈ tables.devices, session.id = hit.sessionPk ∧ session.userId = userId ∧
      device.id = session.deviceContextId ∧ device.userId = userId ∧
      sessionStructure tables userId hit.sessionPk = .ok (.derive (streamEvents tables hit.sessionPk)) := by
  obtain ⟨inner, -, hne, hraw⟩ := h.events hsourced hhit
  obtain ⟨raw, hmem⟩ := List.exists_mem_of_ne_nil _ hne
  obtain ⟨event, hevent, hof⟩ := hraw raw hmem
  obtain ⟨session, hsession, hofSession⟩ := hintegral.linked.sessions event hevent
  obtain ⟨device, hdevice, hdeviceId, hdeviceOwner⟩ := hintegral.linked.sessionDevices session hsession
  have howner : session.userId = userId := hofSession.userId.trans hof.passes.userId
  have hid : session.id = hit.sessionPk := hofSession.id.trans hof.sessionPk
  refine ⟨session, hsession, device, hdevice, hid, howner, hdeviceId, hdeviceOwner.trans howner, ?_⟩
  have hown : hasOwnSession tables.shared userId session.id = true := hasOwnSession_of_mem hsession howner
  rw [hid] at hown
  have hstored : event ∈ tables.shared.events := hevent
  rw [sessionStructure_shared, streamEvents_shared]
  exact sessionStructure_of_event hown hstored hof.sessionPk

theorem Integral.located (h : Integral tables) {event : EventRow} (hevent : event ∈ tables.events) :
    ∃ location, (SessionStructure.derive (streamEvents tables event.sessionPk)).eventPosition event.id =
      some location := by
  have hstored : event ∈ tables.shared.events := hevent
  rw [streamEvents_shared]
  obtain ⟨streamEvent, hmem, hpk⟩ := streamEvents_mem hstored
  have hpks : ((Storage.streamEvents tables.shared event.sessionPk).map StreamEvent.pk).Nodup :=
    streamEvents_pks h.eventPks h.factsPks event.sessionPk
  rw [← hpk]
  exact Option.isSome_iff_exists.mp (SessionStructure.eventPosition_isSome hpks hmem)

theorem HitOf.located (hintegral : Integral tables) {sessionPk : Uuid} {raw : RawMatchedHit} {event : EventRow}
    (hevent : event ∈ tables.events) (h : HitOf inRange userId query sessionPk raw event)
    (hstructure : sessionStructure tables userId sessionPk = .ok (.derive (streamEvents tables sessionPk))) :
    MatchOf inRange tables userId query sessionPk raw { raw.event.match' with
      location := (SessionStructure.derive (streamEvents tables sessionPk)).eventPosition raw.eventPk } := by
  obtain ⟨location, hlocation⟩ := hintegral.located hevent
  rw [h.id, h.sessionPk] at hlocation
  exact
    { event := ⟨event, hevent, h.id, h.sessionPk, h.passes, h.eventType, h.llmProvider, h.llmModel, h.observedAt⟩
      eventPk := rfl
      location := ⟨_, location, hstructure, hlocation, hlocation⟩
      new := rfl
      fragments := parsed_shows _ }

end Hits

section Searches

variable [Sha256] {inRange : Option DateTime → Option DateTime → DateTime → Prop} {userId : Uuid}
  {tables : Tables} {index : SearchIndex} {reply : RawSearchResponse}

def located (item : SessionSearchResult) (derived : SessionStructure) : SessionSearchResult :=
  { item with matches' := item.matches'.map fun hit => { hit with location := derived.eventPosition hit.eventPk } }

/-- What is done to locate the matches of one result. -/
def locateResult (tables : Tables) (userId : Uuid) (item : SessionSearchResult) : Except AppError SessionSearchResult :=
  if item.matches'.isEmpty then .ok item
  else do
    let derived ← sessionStructure tables userId item.sessionPk
    return located item derived

/-- A hit has its session's details, and its result can be located. -/
theorem Drawn.result {query : ValidatedSearchQuery} (h : Drawn inRange index (searchRequest userId query) reply)
    (hsourced : Sourced index tables) (hintegral : Integral tables) {hit : RawOuterHit} (hhit : hit ∈ reply.hits)
    {inner : RawInnerHits} (hinner : hit.innerHits = some inner) {sessionIds : List Uuid}
    (hasked : hit.sessionPk ∈ sessionIds) :
    ∃ details, sessionDetails tables userId sessionIds hit.sessionPk = some details ∧
      ∃ result, locateResult tables userId ((foundMatches hit inner).result details) = .ok result ∧
        ResultOf inRange tables userId query hit result := by
  obtain ⟨session, hsession, device, hdevice, hid, howner, hdeviceId, hdeviceOwner, hstructure⟩ :=
    h.session hsourced hintegral hhit
  obtain ⟨inner', hinner', hne, hraw⟩ := h.events hsourced hhit
  obtain rfl := Option.some.inj (hinner.symm.trans hinner')
  have hdetails := hintegral.sessionDetails hsession howner hdevice hdeviceId (hid ▸ hasked)
  rw [hid] at hdetails
  refine ⟨⟨session, device, title tables hit.sessionPk⟩, hdetails,
    located ((foundMatches hit inner).result ⟨session, device, title tables hit.sessionPk⟩)
      (.derive (streamEvents tables hit.sessionPk)), ?_, ?_⟩
  · have hmatches : ((foundMatches hit inner).events.map MatchedEventHit.match').isEmpty = false := by
      simpa [foundMatches] using hne
    have hlocated : sessionStructure tables userId session.id =
        .ok (.derive (streamEvents tables hit.sessionPk)) := by rw [hid, hstructure]
    simp only [locateResult, SessionMatches.result, hmatches, hlocated]
    rfl
  · refine
      { session := ⟨session, hsession, device, hdevice, hid, howner, hdeviceId, hdeviceOwner, rfl, rfl, rfl, rfl, rfl,
          rfl, rfl, rfl⟩
        title := rfl
        providers := ?_
        models := ?_
        matches' := ⟨inner, hinner, rfl, rfl, ?_⟩ }
    · simp [located, SessionMatches.result, MatchedEventHit.match', Function.comp_def]
    · simp [located, SessionMatches.result, MatchedEventHit.match', Function.comp_def]
    · simp only [located, SessionMatches.result, foundMatches, List.map_map, List.forall₂_map_right_iff,
        List.forall₂_same]
      intro raw hmem
      obtain ⟨event, hevent, hof⟩ := hraw raw hmem
      exact hof.located hintegral hevent hstructure

/-- A reply of an index whose documents are of events there are is answered in full. -/
theorem Drawn.sessionSearch {query : SessionSearchQuery} {validated : ValidatedSearchQuery}
    {replies : SearchRequest → Except String RawSearchResponse} (hvalid : query.validate = .ok validated)
    (hreply : replies (searchRequest userId validated) = .ok reply)
    (h : Drawn inRange index (searchRequest userId validated) reply) (hsourced : Sourced index tables)
    (hintegral : Integral tables) : ∃ response, sessionSearch tables userId query replies = .ok response ∧
      ResponseOf inRange tables userId validated reply response := by
  obtain ⟨sessions, hpage, hfound⟩ := h.tryFrom
  have hpks : reply.hits.map RawOuterHit.sessionPk = sessions.map SessionMatches.sessionPk :=
    Rows.forall₂_map_eq hfound fun hit _ found _ => by rintro ⟨inner, -, rfl⟩; rfl
  have hsearch : search userId query replies = .ok ⟨validated, ⟨reply.sessionCount.getD 0, sessions⟩⟩ := by
    simp only [search, hvalid, hreply, Except.bind, hpage]
  have hresult : ∀ hit ∈ reply.hits, ∀ inner, hit.innerHits = some inner → ∃ details,
      sessionDetails tables userId (sessions.map SessionMatches.sessionPk) hit.sessionPk = some details ∧
      ∃ result, locateResult tables userId ((foundMatches hit inner).result details) = .ok result ∧
        ResultOf inRange tables userId validated hit result := fun hit hhit inner hinner =>
    h.result hsourced hintegral hhit hinner (hpks ▸ List.mem_map_of_mem hhit)
  have hhydrated := hydrateSessions_related hfound (hpks ▸ h.collapsed) fun found hmem => by
    obtain ⟨hit, hhit, inner, hinner, rfl⟩ := Rows.forall₂_mem_right hfound hmem
    obtain ⟨details, hdetails, -⟩ := hresult hit hhit inner hinner
    exact Option.isSome_iff_exists.mpr ⟨details, hdetails⟩
  obtain ⟨items, hitems, hresults⟩ := mapM_related (Q := ResultOf inRange tables userId validated)
    (Rows.forall₂_imp_mem hhydrated fun hit hhit item _ hitem => And.intro hhit hitem) (by
      rintro hit item ⟨hhit, found, -, details, ⟨inner, hinner, rfl⟩, hdetails, rfl⟩
      obtain ⟨details', hdetails', hlocated⟩ := hresult hit hhit inner hinner
      obtain rfl := Option.some.inj (hdetails.symm.trans hdetails')
      exact hlocated)
  refine ⟨{ (SearchExecution.hydrate ⟨validated, ⟨reply.sessionCount.getD 0, sessions⟩⟩
    (sessionDetails tables userId (sessions.map SessionMatches.sessionPk))) with items }, ?_, ?_⟩
  · have hlocate : locateSearchMatches (SearchExecution.hydrate ⟨validated, ⟨reply.sessionCount.getD 0, sessions⟩⟩
        (sessionDetails tables userId (sessions.map SessionMatches.sessionPk))) (sessionStructure tables userId) =
        .ok { (SearchExecution.hydrate ⟨validated, ⟨reply.sessionCount.getD 0, sessions⟩⟩
          (sessionDetails tables userId (sessions.map SessionMatches.sessionPk))) with items } :=
      bind_eq_ok.mpr ⟨items, hitems, rfl⟩
    refine bind_eq_ok.mpr ⟨_, hsearch, ?_⟩
    simp only [SearchExecution.sessionIds, hlocate]
    rfl
  · exact
      { text := rfl
        totalSessions := rfl
        page := ⟨rfl, rfl⟩
        hasMore := decide_eq_true_iff
        items := hresults }

variable [Base64] {start system : SearchSystem} {later : World}

theorem Empty.sourced (hstart : Empty start) (h : Reaches SearchSystem.step Answered start system)
    (hlater : Reaches World.step anyStep system.world later) : Sourced system.index later.database.committed := by
  have hindexing : Indexing system :=
    h.invariant hstart.indexing fun _ _ _ hbefore hallowed hstep => hbefore.step hallowed hstep
  intro eventPk document hdocument
  rw [hindexing.index] at hdocument
  split at hdocument
  · obtain ⟨event, hfind, rfl⟩ := Option.map_eq_some_iff.mp hdocument
    obtain ⟨hevent, hid⟩ := Rows.find_mem hfind
    exact ⟨event, reaches_events hlater event hevent, hid, rfl⟩
  · cases hdocument

/-- Whatever Elasticsearch held when it replied, and whatever has been committed since: a search shows every hit of the
reply, in its order, with what PostgreSQL has of the owner's session and with every match where it is. -/
theorem Empty.search_shows (hstart : Empty start) (hintegral : Integral start.world.database.committed)
    (h : Reaches SearchSystem.step Answered start system) (hlater : Reaches World.step anyStep system.world later)
    {query : SessionSearchQuery} {validated : ValidatedSearchQuery} (hvalid : query.validate = .ok validated)
    {replies : SearchRequest → Except String RawSearchResponse}
    (hreply : replies (searchRequest userId validated) = .ok reply)
    (hdrawn : Drawn inRange system.index (searchRequest userId validated) reply) :
    ∃ response, sessionSearch later.database.committed userId query replies = .ok response ∧
      ResponseOf inRange later.database.committed userId validated reply response := by
  have hrelated : Related later.database :=
    ((SearchSystem.reaches_world h).trans hlater).invariant (P := fun world => Related world.database)
      (hintegral.related hstart.world.transactions) fun _ _ _ hbefore _ hstep => hbefore.world (World.stepped hstep)
  exact hdrawn.sessionSearch hvalid hreply (hstart.sourced h hlater) hrelated.integral

end Searches

section Shown

open Fixtures

local instance shownDigest : Sha256 := cargoDigest

local instance shownContent : Base64 := noContent

theorem olderWorld_integral : Integral olderWorld.database.committed := by
  have hran : (run World.step anyStep ingested newWorld).isSome = true := by decide +kernel
  obtain ⟨world, hrun⟩ := Option.isSome_iff_exists.mp hran
  have hrelated : Related world.database :=
    (reaches_run hrun).invariant (P := fun world => Related world.database) (integral_none.related rfl)
      fun _ _ _ hbefore _ hstep => hbefore.world (World.stepped hstep)
  have hcommitted : olderWorld.database.committed = { world.database.committed with outbox := [] } := by
    rw [olderWorld, hrun, Option.getD_some]
  rw [hcommitted]
  exact (hrelated.setOutbox []).integral

/-- The event of the older world. -/
def olderEvent : EventRow :=
  newEvent 7 10 11 ⟨{ event "e1" 1 .response [] with conversation := none }, [], (draws 10).event 0, 10⟩

/-- The event ingested next, in a session of its own. -/
def nextEvent : EventRow :=
  newEvent 7 10 21 ⟨{ event "e2" 1 .response [] with sessionId := "t", conversation := none }, [], (draws 20).event 0, 20⟩

def sessionQuery : SessionSearchQuery where
  q := " s "
  fromTime := none
  toTime := none
  agentName := []
  llmProvider := []
  llmModel := []
  eventType := some "response"
  page := none
  pageSize := none

def sessionQueryChecked : ValidatedSearchQuery where
  text := "s"
  fromTime := none
  toTime := none
  agentNames := []
  llmProviders := []
  llmModels := []
  eventType := some "response"
  page := 1
  pageSize := 20
  offset := 0

def hitOf (event : EventRow) : RawMatchedHit :=
  ⟨event.id, event.eventType, event.llmProvider, event.llmModel, timestampFromMicros event.observedAt, fun _ => none⟩

def shownReply : RawSearchResponse :=
  ⟨some 2, [⟨nextEvent.sessionPk, some ⟨1, [hitOf nextEvent]⟩⟩, ⟨olderEvent.sessionPk, some ⟨1, [hitOf olderEvent]⟩⟩]⟩

theorem hitOf_drawn {event : EventRow} (hheld : answeredSystem.index event.id = some (.fromEvent event))
    (huser : event.userId = 7) (htype : event.eventType = "response") :
    ∃ inner, some (RawInnerHits.mk 1 [hitOf event]) = some inner ∧ inner.hits ≠ [] ∧ ∀ raw ∈ inner.hits,
      ∃ document, answeredSystem.index raw.eventPk = some document ∧ raw.Of event.sessionPk document ∧
        ∀ filter ∈ (searchRequest 7 sessionQueryChecked).filters, filter.Admits (fun _ _ _ => True) document := by
  refine ⟨_, rfl, List.cons_ne_nil _ _, fun raw hraw => ?_⟩
  obtain rfl := List.mem_singleton.mp hraw
  refine ⟨.fromEvent event, hheld, ⟨rfl, rfl, rfl, rfl, rfl⟩, (searchRequest_admits event).mpr ?_⟩
  exact ⟨huser, fun _ => trivial, fun hne => absurd rfl hne, fun hne => absurd rfl hne, fun hne => absurd rfl hne,
    fun eventType hsome => htype.trans (Option.some.inj hsome)⟩

theorem shownReply_drawn : Drawn (fun _ _ _ => True) answeredSystem.index (searchRequest 7 sessionQueryChecked)
    shownReply := by
  refine ⟨by decide, fun hit hhit => ?_⟩
  obtain rfl | hlast := List.mem_cons.mp hhit
  · exact hitOf_drawn rfl rfl rfl
  · obtain rfl := List.mem_singleton.mp hlast
    exact hitOf_drawn rfl rfl rfl

/-- An ingest into the older session between the reply and what is shown of it. -/
def laterWorld : World :=
  (run World.step anyStep (responding "e3" "s" 30 1) answeredSystem.world).getD answeredSystem.world

theorem laterWorld_reached : Reaches World.step anyStep answeredSystem.world laterWorld := by
  have hrun : run World.step anyStep (responding "e3" "s" 30 1) answeredSystem.world = some laterWorld := rfl
  exact reaches_run hrun

theorem Empty.search_shows_older : (answeredSystem.world.events.length, laterWorld.events.length) = (2, 3) ∧
    ∃ response,
      sessionSearch laterWorld.database.committed 7 sessionQuery (fun _ => .ok shownReply) = .ok response ∧
        ResponseOf (fun _ _ _ => True) laterWorld.database.committed 7 sessionQueryChecked shownReply response :=
  ⟨rfl, olderSystem_empty.search_shows olderWorld_integral answeredSystem_reached laterWorld_reached rfl rfl
    shownReply_drawn⟩

end Shown

end AbyssBackend.Postgres
