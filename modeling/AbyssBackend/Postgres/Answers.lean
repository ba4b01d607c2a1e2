import AbyssBackend.Postgres.Agreement
import AbyssBackend.Postgres.Reads
import AbyssBackend.Storage.OwnEvents
import AbyssBackend.Storage.OwnSessions

namespace AbyssBackend.Postgres

open Attempts Conversation Groups Search Sorting Storage Streams Text

section Reads

variable (tables : Tables)

def admits (filters : Storage.EventFilters) (eventType : Option String) (event : EventRow) : Bool :=
  event.userId == filters.userId &&
  (filters.fromTime.all fun fromTime => event.observedAt ≥ timestamptz fromTime) &&
  (filters.toTime.all fun toTime => event.observedAt < timestamptz toTime) &&
  anyOf (exactValuesFilter filters.agentNames) event.agentName &&
  anyOf (exactValuesFilter filters.sessionIds) event.sessionId &&
  (filters.sessionPk.all fun sessionPk => event.sessionPk == sessionPk) &&
  anyOf (exactValuesFilter filters.llmProviders) event.llmProvider &&
  anyOf (exactValuesFilter filters.llmModels) event.llmModel &&
  eventType.all fun eventType => event.eventType == eventType

def loadFilteredEvents (filters : Storage.EventFilters) (includeContent : Bool) : Except AppError (List EventRow) := do
  let eventType ← (filters.eventType.bind nonEmpty).mapM validateEventType
  let rows := page filters.offset filters.limit.toNat
    (sortBy newestFirst (tables.events.filter (admits filters eventType)))
  return if includeContent then rows else rows.map EventRow.withoutContent

def loadDeviceContextsForEvents (events : List EventRow) : Tables.Table Uuid DeviceRow :=
  let ids := (events.map EventRow.deviceContextId).dedup
  if ids.isEmpty then Tables.empty
  else
    let devices := tables.devices.filter fun device => ids.contains device.id
    Tables.ofPairs (devices.map fun device => (device.id, device))

def loadDeclaredIdsForEvents (events : List EventRow) : Tables.Table Uuid DeclaredIds :=
  let eventPks := events.map EventRow.id
  if eventPks.isEmpty then Tables.empty
  else Tables.ofPairs ((tables.streamFacts.filter fun facts => eventPks.contains facts.eventPk).map fun facts =>
    (facts.eventPk, ⟨facts.subagentId, facts.parentSubagentId, facts.turnId⟩))

def loadAttachmentsForEvents (events : List EventRow) : Tables.Table Uuid (List UsageEventAttachmentResponse) :=
  let eventIds := events.map EventRow.id
  if eventIds.isEmpty then Tables.empty
  else pushed AttachmentRow.eventPk AttachmentRow.response
    (sortBy AttachmentRow.order (tables.attachments.filter fun attachment => eventIds.contains attachment.eventPk))

def eventResponse (event : EventRow) (device : Option DeviceRow) (declared : DeclaredIds)
    (attachments : List UsageEventAttachmentResponse) : UsageEventResponse :=
  let recorded := RecordedMetadata.read event.metadata
  { id := event.id
    eventId := event.eventId
    sessionPk := event.sessionPk
    sessionId := event.sessionId
    location := none
    observedAt := timestampFromMicros event.observedAt
    eventType := event.eventType
    agent := ⟨event.agentName, event.agentVersion⟩
    device := device.elim ⟨none, none, none⟩ fun device =>
      ⟨some device.hostName, some device.platform, device.osVersion⟩
    llm := ⟨event.llmProvider, event.llmModel⟩
    purpose := recorded.purpose
    declared
    responseId := event.responseId
    previousResponseId := event.previousResponseId
    http := recorded.http
    tokenUsage := ⟨event.inputTokens, event.outputTokens, event.cacheReadTokens, event.cacheWriteTokens,
      event.reasoningTokens, event.totalTokens⟩
    omitted := recorded.omitted
    conversation := event.conversation
    attachments }

def eventResponses (events : List EventRow) (includeContent : Bool) : List UsageEventResponse :=
  let devices := loadDeviceContextsForEvents tables events
  let (declared, attachments) :=
    if includeContent then (loadDeclaredIdsForEvents tables events, loadAttachmentsForEvents tables events)
    else (Tables.empty, Tables.empty)
  -- no event is there twice, so taking one's ids and attachments out leaves the others' in
  events.map fun event => eventResponse event (devices event.deviceContextId) ((declared event.id).getD {})
    ((attachments event.id).getD [])

def rawEvents (query : RawEventsQuery) (userId : Uuid) (defaultLimit : ℤ) : Except AppError RawEventsResponse := do
  let pageSize := normalizeLimit query.limit defaultLimit 1000
  let offset := max (query.offset.getD 0) 0
  let events ← loadFilteredEvents tables
    { userId
      fromTime := query.fromTime
      toTime := query.toTime
      agentNames := query.agentName
      sessionIds := query.sessionId
      sessionPk := query.sessionPk
      llmProviders := query.llmProvider
      llmModels := query.llmModel
      eventType := query.eventType
      limit := saturatingAdd pageSize 1
      offset } query.includesContent
  let hasNextPage := events.length > pageSize.toNat
  return {
    events := eventResponses tables (if hasNextPage then events.take pageSize.toNat else events) query.includesContent
    nextPageToken := if hasNextPage then some (toString (saturatingAdd offset pageSize)) else none }

def usageEvent (userId eventPk : Uuid) : Except AppError UsageEventResponse :=
  match tables.events.find? fun event => event.id == eventPk && event.userId == userId with
  | none => .error (.notFound s!"usage event not found: {uuidText eventPk}")
  | some event =>
    match (eventResponses tables [event] true).getLast? with
    | none => .error (.internal "loaded event has no response")
    | some response => .ok response

def imageAttachment (userId attachmentId : Uuid) : Except AppError StoredImageAttachment :=
  match tables.attachments.find? fun attachment => attachment.id == attachmentId && attachment.userId == userId with
  | none => .error (.notFound s!"image attachment not found: {uuidText attachmentId}")
  | some attachment =>
    match attachment.content with
    | none => .error (.notFound s!"image attachment content not found: {uuidText attachmentId}")
    | some content =>
      if (content.length : ℤ) ≠ attachment.byteSize then
        .error (.internal s!"stored image attachment byte size mismatch: {uuidText attachmentId}")
      else .ok { mediaType := attachment.mediaType, sha256 := hexEncode attachment.sha256, content }

def sessionStreams (userId sessionPk : Uuid) : Except AppError SessionStreamsResponse := do
  let derived ← sessionStructure tables userId sessionPk
  return ⟨sessionPk, derived.sessionStreams⟩

def sessionTurns (userId sessionPk : Uuid) : Except AppError SessionTurnsResponse := do
  let derived ← sessionStructure tables userId sessionPk
  return ⟨sessionPk, derived.sessionTurns⟩

def eventLocation (userId eventPk : Uuid) : Except AppError EventLocationResponse :=
  let event := tables.events.find? fun event => event.userId == userId && event.id == eventPk
  match event.map EventRow.sessionPk with
  | none => .error (.notFound s!"event not found: {uuidText eventPk}")
  | some sessionPk => do
    let derived ← sessionStructure tables userId sessionPk
    match derived.eventPosition eventPk with
    | none => throw (.notFound s!"event not found: {uuidText eventPk}")
    | some location => return ⟨sessionPk, eventPk, location⟩

def usageEvents (userId : Uuid) (pks : List Uuid) : Tables.Table Uuid UsageEventResponse :=
  let events := tables.events.filter fun event => pks.contains event.id && event.userId == userId
  Tables.ofPairs ((eventResponses tables events true).map fun event => (event.id, event))

def sessionSegment (userId sessionPk : Uuid) (head : String) (window : Window) : Except AppError SegmentResponse := do
  let derived ← sessionStructure tables userId sessionPk
  match derived.segmentRun head with
  | none => throw (.notFound s!"exchange not found in session {uuidText sessionPk}: {head}")
  | some run => return segmentResponse sessionPk run (usageEvents tables userId (runEventPks run)) window

def eventConversation (userId eventPk : Uuid) (window : Window) : Except AppError ConversationPreview := do
  let event ← usageEvent tables userId eventPk
  return preview event window

namespace PostgresEsBackend

def rawEvents (userId : Uuid) (query : RawEventsQuery) (defaultPageSize : ℤ) : Except AppError RawEventsResponse := do
  let response ← Postgres.rawEvents tables query userId defaultPageSize
  if query.locate then
    let events ← locateEvents response.events (sessionStructure tables userId)
    return { response with events }
  else return response

def usageEvent (userId eventPk : Uuid) : Except AppError UsageEventResponse := do
  let event ← Postgres.usageEvent tables userId eventPk
  let derived ← sessionStructure tables userId event.sessionPk
  return { event with location := derived.eventPosition event.id }

end PostgresEsBackend

end Reads

/-! These reads agree with those of the same tables in SQLite. -/

section Shared

variable {tables : Tables}

theorem loadDeviceContexts_shared (events : List EventRow) :
    loadDeviceContextsForEvents tables events = loadDeviceContexts tables.shared events := by
  unfold loadDeviceContextsForEvents loadDeviceContexts
  cases events with
  | nil => simp [Tables.ofPairs]
  | cons event events =>
    have hids : ((event :: events).map EventRow.deviceContextId).dedup.isEmpty = false :=
      List.isEmpty_eq_false_iff.mpr (List.ne_nil_of_mem (List.mem_dedup.mpr List.mem_cons_self))
    simp only [hids, List.contains_eq_mem, List.mem_dedup]
    rfl

theorem loadDeclaredIds_shared (events : List EventRow) :
    loadDeclaredIdsForEvents tables events = loadDeclaredIds tables.shared events := by
  unfold loadDeclaredIdsForEvents loadDeclaredIds
  cases events with
  | nil => simp [Tables.ofPairs]
  | cons event events => rfl

/-- Pushing each attachment to those of its event is grouping them. -/
theorem loadAttachments_shared (events : List EventRow) :
    loadAttachmentsForEvents tables events = loadAttachments tables.shared events := by
  unfold loadAttachmentsForEvents loadAttachments
  cases events with
  | nil => simp [Tables.ofPairs, sortBy, groupBy]
  | cons event events => exact pushed_eq ..

theorem eventResponse_shared (event : EventRow) (device : Option DeviceRow) (declared : DeclaredIds)
    (attachments : List UsageEventAttachmentResponse) :
    eventResponse event device declared attachments = Storage.eventResponse event device declared attachments := by
  cases device <;> rfl

theorem eventResponses_shared (events : List EventRow) (includeContent : Bool) :
    eventResponses tables events includeContent = Storage.eventResponses tables.shared events includeContent := by
  unfold eventResponses Storage.eventResponses
  rw [loadDeviceContexts_shared, loadDeclaredIds_shared, loadAttachments_shared]
  simp only [eventResponse_shared]
  cases includeContent <;> rfl

theorem usageEvent_shared (userId eventPk : Uuid) :
    usageEvent tables userId eventPk = Storage.usageEvent tables.shared userId eventPk := by
  unfold usageEvent Storage.usageEvent
  simp only [eventResponses_shared]
  rfl

theorem imageAttachment_shared (userId attachmentId : Uuid) :
    imageAttachment tables userId attachmentId = Storage.imageAttachment tables.shared userId attachmentId := rfl

theorem sessionStreams_shared (userId sessionPk : Uuid) :
    sessionStreams tables userId sessionPk = Storage.sessionStreams tables.shared userId sessionPk := by
  rw [sessionStreams, sessionStructure_shared, Storage.sessionStreams]

theorem sessionTurns_shared (userId sessionPk : Uuid) :
    sessionTurns tables userId sessionPk = Storage.sessionTurns tables.shared userId sessionPk := by
  rw [sessionTurns, sessionStructure_shared, Storage.sessionTurns]

theorem eventLocation_shared (userId eventPk : Uuid) :
    eventLocation tables userId eventPk = Storage.eventLocation tables.shared userId eventPk := by
  have hevents : tables.shared.events = tables.events := rfl
  unfold eventLocation Storage.eventLocation
  simp only [sessionStructure_shared, hevents]
  cases tables.events.find? fun event => event.userId == userId && event.id == eventPk <;> rfl

theorem usageEvents_shared (userId : Uuid) (pks : List Uuid) :
    usageEvents tables userId pks = Storage.usageEvents tables.shared userId pks := by
  unfold usageEvents Storage.usageEvents
  simp only [eventResponses_shared]
  rfl

theorem sessionSegment_shared (userId sessionPk : Uuid) (head : String) (window : Window) :
    sessionSegment tables userId sessionPk head window =
      Storage.sessionSegment tables.shared userId sessionPk head window := by
  rw [sessionSegment, sessionStructure_shared, Storage.sessionSegment]
  simp only [usageEvents_shared] <;> rfl

theorem eventConversation_shared (userId eventPk : Uuid) (window : Window) :
    eventConversation tables userId eventPk window = Storage.eventConversation tables.shared userId eventPk window := by
  rw [eventConversation, usageEvent_shared, Storage.eventConversation]
  rfl

end Shared

section Hybrid

variable [Sha256] [CaseMapping] {tables : Tables} {store : Store}

/-- The rows of PostgreSQL beside what SQLite alone has. -/
def beside (tables : Tables) (store : Store) : Store :=
  { tables.shared with
    users := store.users
    searchTexts := store.searchTexts
    searchTextsTrigram := store.searchTextsTrigram
    searchRefs := store.searchRefs }

omit [Sha256] [CaseMapping] in
theorem Twin.beside_eq (h : Twin tables store) : beside tables store =
    { store with devices := tables.devices, sessions := tables.sessions, sessionTitles := tables.sessionTitles } := by
  unfold beside Tables.shared
  rw [h.events, h.streamFacts, h.attachments, h.captures, h.captureEvents]

omit [Sha256] [CaseMapping] in
theorem Twin.hierarchy (h : Twin tables store) (hhierarchy : Hierarchy store) : Hierarchy (beside tables store) := by
  rw [h.beside_eq]
  exact {
    hhierarchy with
    deviceIds := (h.devices.map _).nodup_iff.mpr hhierarchy.deviceIds
    deviceKeys := (h.devices.map _).nodup_iff.mpr hhierarchy.deviceKeys
    sessionIds := (h.sessions.map _).nodup_iff.mpr hhierarchy.sessionIds
    sessionKeys := (h.sessions.map _).nodup_iff.mpr hhierarchy.sessionKeys
    sessionDevices := fun session hsession => by
      obtain ⟨device, hdevice, hon⟩ := hhierarchy.sessionDevices session (h.sessions.mem_iff.mp hsession)
      exact ⟨device, h.devices.mem_iff.mpr hdevice, hon⟩
    devices := fun event hevent => by
      obtain ⟨device, hdevice, hon⟩ := hhierarchy.devices event hevent
      exact ⟨device, h.devices.mem_iff.mpr hdevice, hon⟩
    sessions := fun event hevent => by
      obtain ⟨session, hsession, hof⟩ := hhierarchy.sessions event hevent
      exact ⟨session, h.sessions.mem_iff.mpr hsession, hof⟩
    deviceSpans := ⟨fun device hdevice => hhierarchy.deviceSpans.least device (h.devices.mem_iff.mp hdevice),
      fun device hdevice => hhierarchy.deviceSpans.greatest device (h.devices.mem_iff.mp hdevice)⟩
    sessionSpans := ⟨fun session hsession => hhierarchy.sessionSpans.least session (h.sessions.mem_iff.mp hsession),
      fun session hsession => hhierarchy.sessionSpans.greatest session (h.sessions.mem_iff.mp hsession)⟩ }

theorem Twin.sound (h : Twin tables store) (hsound : Sound store) : Sound (beside tables store) where
  hierarchy := h.hierarchy hsound.hierarchy
  streamFacts := by
    rw [h.beside_eq]
    exact hsound.streamFacts
  index := by
    rw [h.beside_eq]
    exact { hsound.index with }
  attachments := by
    rw [h.beside_eq]
    exact hsound.attachments
  titles := by
    rw [h.beside_eq]
    refine ⟨(h.sessionTitles.map _).nodup_iff.mpr hsound.titles.sessions, fun title htitle => ?_,
      fun event hevent hrequest => ?_⟩
    · exact hsound.titles.names title (h.sessionTitles.mem_iff.mp htitle)
    · exact (h.sessionTitles.map _).mem_iff.mpr (hsound.titles.titled event hevent hrequest)

/-- What the owner has is the same in both. -/
theorem Twin.agree [Base64] (h : Twin tables store) (hreachable : Reachable store) (owner : Uuid) :
    Agree owner (beside tables store) store where
  sound := h.sound hreachable.sound
  sound' := hreachable.sound
  counters := by
    rw [h.beside_eq]
    exact hreachable.counters
  counters' := hreachable.counters
  apart := by
    rw [h.beside_eq]
    exact ⟨hreachable.attachmentsApart.ids, hreachable.attachmentsApart.places⟩
  apart' := hreachable.attachmentsApart
  rows := by
    rw [h.beside_eq]
    exact {
      users := .refl _
      devices := h.devices.filter _
      sessions := h.sessions.filter _
      events := .refl _
      streamFacts := .refl _
      attachments := .refl _
      searchTexts := .refl _
      searchTextsTrigram := .refl _
      searchRefs := .refl _
      sessionTitles := h.sessionTitles.filter _
      captures := .refl _
      captureEvents := .refl _ }

end Hybrid

section Sessions

variable [Sha256] [CaseMapping] {tables : Tables} {store : Store} {owner : Uuid}

/-- The stored title names a request of the session itself, so reading it needs no more than its row. -/
theorem title_beside (hsound : Sound (beside tables store)) {session : SessionRow} (hsession : session ∈ tables.sessions) :
    title tables session.id = Storage.title (beside tables store) session.id := by
  have hids : (tables.sessions.map SessionRow.id).Nodup := hsound.hierarchy.sessionIds
  have htitles : (tables.sessionTitles.map SessionTitle.sessionPk).Nodup := hsound.titles.sessions
  have hfound : Rows.find SessionRow.id session.id (beside tables store).sessions = some session :=
    Rows.find_of_mem hids hsession
  unfold title Storage.title
  rw [hfound]
  simp only [Option.bind_eq_bind, Option.bind_some]
  cases htitle : Rows.find SessionTitle.sessionPk session.id tables.sessionTitles with
  | none =>
    have hnone : ((beside tables store).sessionTitles.find? fun title =>
        title.sessionPk == session.id && title.userId == session.userId) = none := by
      refine List.find?_eq_none.mpr fun row hrow hboth => Rows.find_none htitle ?_
      exact List.mem_map.mpr ⟨row, hrow, beq_iff_eq.mp (Bool.and_eq_true_iff.mp hboth).1⟩
    rw [hnone]
    rfl
  | some row =>
    obtain ⟨hmem, hpk⟩ := Rows.find_mem htitle
    obtain ⟨event, hnames⟩ := hsound.titles.names row hmem
    have howner : row.userId = session.userId := by
      obtain ⟨session', hsession', hof⟩ := hsound.hierarchy.sessions event hnames.mem
      obtain rfl := List.inj_on_of_nodup_map hids hsession' hsession (hof.id.trans (hnames.request.2.trans hpk))
      exact hnames.userId.trans hof.userId.symm
    have hrow : ((beside tables store).sessionTitles.find? fun title =>
        title.sessionPk == session.id && title.userId == session.userId) = some row := by
      refine Rows.find?_key htitles hmem (by simp [hpk, howner]) fun other _ hboth => ?_
      exact (beq_iff_eq.mp (Bool.and_eq_true_iff.mp hboth).1).trans hpk.symm
    have hevent : ((beside tables store).events.find? fun event => some event.id == row.titleEventPk &&
        event.sessionPk == session.id && event.eventType == "request") = some event := by
      refine Rows.find?_key hsound.hierarchy.eventPks hnames.mem ?_ fun other _ hall => ?_
      · simp [hnames.eventPk, hnames.request.1, hnames.request.2, hpk]
      · simp only [Bool.and_eq_true, beq_iff_eq, hnames.eventPk, Option.some.injEq] at hall
        exact hall.1.1
    rw [hrow]
    simp only [Option.bind_some]
    rw [hevent, hnames.eventPk]
    rfl

theorem sessionHeader_beside (hsound : Sound (beside tables store)) (sessionPk : Uuid) :
    sessionHeader tables owner sessionPk = Storage.sessionHeader (beside tables store) owner sessionPk := by
  unfold sessionHeader Storage.sessionHeader
  have hshared : hasOwnSession (beside tables store) owner sessionPk =
      (ownSession tables owner sessionPk).isSome := (ownSession_isSome owner sessionPk).symm
  have hstructure : Storage.sessionStructure (beside tables store) owner sessionPk =
      sessionStructure tables owner sessionPk := (sessionStructure_shared owner sessionPk).symm
  rw [hstructure]
  cases hfound : ownSession tables owner sessionPk with
  | none =>
    rw [hshared, hfound]
    rfl
  | some found =>
    have hown : hasOwnSession (beside tables store) owner sessionPk = true := by
      rw [hshared, hfound, Option.isSome_some]
    obtain ⟨session, hsession, rfl, -⟩ := exists_ownSession hown
    rw [hown, title_beside hsound hsession]
    have hevents : Storage.eventsOf (beside tables store) session.id = eventsOf tables session.id := rfl
    rw [hevents]
    cases eventsOf tables session.id <;> rfl

/-- PostgreSQL checks the sum where SQLite checks every partial sum. -/
theorem activityRow_beside (hsound : Sound (beside tables store)) (hcounters : CountersKept (beside tables store))
    {session : SessionRow} (hsession : session ∈ tables.sessions) (device : DeviceRow) :
    activityRow tables session device = Storage.activityRow (beside tables store) session device := by
  have hvalues : ∀ value ∈ (Storage.eventsOf (beside tables store) session.id).map EventRow.totalTokens, 0 ≤ value := by
    intro value hvalue
    obtain ⟨event, hevent, rfl⟩ := List.mem_map.mp hvalue
    exact (TokenCounts.forall_columns.mp (hcounters event (mem_eventsOf.mp hevent).1)).2.2.2.2.2
  unfold activityRow Storage.activityRow
  rw [title_beside hsound hsession, sqliteSum_eq hvalues]
  rfl

omit [Sha256] [CaseMapping] in
theorem all_kept {time : Option DateTime} (hkept : ∀ moment ∈ time, Kept moment) (p : ℤ → Bool) :
    (time.all fun moment => p (timestamptz moment)) = time.all fun moment => p (timestampToMicros moment) := by
  cases time with
  | none => rfl
  | some moment => exact congrArg p (hkept moment rfl)

omit [Sha256] [CaseMapping] in
theorem listed_kept {query : ValidatedSessionListQuery} (hfrom : ∀ moment ∈ query.fromTime, Kept moment)
    (hto : ∀ moment ∈ query.toTime, Kept moment) : listed query = Storage.listed query := by
  funext row
  unfold listed Storage.listed
  rw [all_kept hfrom fun moment => moment ≤ row.lastActivityAt, all_kept hto fun moment => row.startedAt < moment]

theorem listSessions_beside (hsound : Sound (beside tables store)) (hcounters : CountersKept (beside tables store))
    {query : ValidatedSessionListQuery} (hfrom : ∀ moment ∈ query.fromTime, Kept moment)
    (hto : ∀ moment ∈ query.toTime, Kept moment) :
    listSessions tables owner query = Storage.listSessions (beside tables store) owner query := by
  have hfiltered : filtered tables owner query = Storage.filtered (beside tables store) owner query := by
    have hactive : Storage.activeSessions (beside tables store) owner query = activeSessions tables owner query :=
      (activeSessions_shared owner query).symm
    have hrows : (activeSessions tables owner query).mapM (fun pair => activityRow tables pair.1 pair.2) =
        (activeSessions tables owner query).mapM fun pair =>
          Storage.activityRow (beside tables store) pair.1 pair.2 := by
      apply mapM_congr (R := Eq) (List.forall₂_same.mpr fun _ _ => rfl)
      rintro ⟨session, device⟩ hpair _ - rfl
      exact activityRow_beside hsound hcounters (mem_activeSessions hpair).1 device
    unfold filtered Storage.filtered
    rw [hactive, hrows, listed_kept hfrom hto]
  unfold listSessions Storage.listSessions
  rw [hfiltered]
  refine bind_congr fun rows => ?_
  let turnsOf (row : SessionListRow) : Except AppError ℕ := do
    let derived ← sessionStructure tables owner row.sessionPk
    return derived.summary.turns
  have hitems := mapM_zip turnsOf (fun pair => pair.1.item pair.2)
    (page query.offset query.pageSize (sortBy latestFirst rows))
  have hitem : (fun row : SessionListRow => do
      let derived ← Storage.sessionStructure (beside tables store) owner row.sessionPk
      return row.item derived.summary.turns) = fun row => turnsOf row >>= fun turns => .ok (row.item turns) := by
    funext row
    have hsame : Storage.sessionStructure (beside tables store) owner row.sessionPk =
        sessionStructure tables owner row.sessionPk := (sessionStructure_shared owner row.sessionPk).symm
    rw [hsame]
    unfold turnsOf
    cases sessionStructure tables owner row.sessionPk <;> rfl
  rw [hitem, hitems, bind_assoc]
  rfl

end Sessions

section Events

variable [Sha256] [CaseMapping] {tables : Tables} {store : Store} {owner : Uuid}

omit [Sha256] [CaseMapping] in
theorem rawEvents_beside {query : RawEventsQuery} (hfrom : ∀ moment ∈ query.fromTime, Kept moment)
    (hto : ∀ moment ∈ query.toTime, Kept moment) (defaultLimit : ℤ) :
    rawEvents tables query owner defaultLimit = Storage.rawEvents (beside tables store) owner query defaultLimit := by
  have hadmits : ∀ (filters : Storage.EventFilters), filters.fromTime = query.fromTime → filters.toTime = query.toTime →
      admits filters = filters.admits := by
    intro filters hsame hsame'
    funext eventType event
    unfold admits Storage.EventFilters.admits
    rw [all_kept (hsame ▸ hfrom) fun moment => event.observedAt ≥ moment,
      all_kept (hsame' ▸ hto) fun moment => event.observedAt < moment]
  unfold rawEvents Storage.rawEvents loadFilteredEvents Storage.loadFilteredEvents
  simp only [hadmits, eventResponses_shared]
  rfl

/-- What an owner reads of either database. -/
structure AnswersAlike (tables : Tables) (store : Store) (owner : Uuid) : Prop where
  sessionHeader (sessionPk : Uuid) :
    Postgres.sessionHeader tables owner sessionPk = Storage.sessionHeader store owner sessionPk
  listSessions (query : ValidatedSessionListQuery) (hfrom : ∀ moment ∈ query.fromTime, Kept moment)
    (hto : ∀ moment ∈ query.toTime, Kept moment) :
    Postgres.listSessions tables owner query = Storage.listSessions store owner query
  sessionStreams (sessionPk : Uuid) :
    Postgres.sessionStreams tables owner sessionPk = Storage.sessionStreams store owner sessionPk
  sessionTurns (sessionPk : Uuid) :
    Postgres.sessionTurns tables owner sessionPk = Storage.sessionTurns store owner sessionPk
  sessionSegment (sessionPk : Uuid) (head : String) (window : Window) :
    Postgres.sessionSegment tables owner sessionPk head window =
      Storage.sessionSegment store owner sessionPk head window
  eventLocation (eventPk : Uuid) :
    Postgres.eventLocation tables owner eventPk = Storage.eventLocation store owner eventPk
  eventConversation (eventPk : Uuid) (window : Window) :
    Postgres.eventConversation tables owner eventPk window = Storage.eventConversation store owner eventPk window
  usageEvent (eventPk : Uuid) :
    PostgresEsBackend.usageEvent tables owner eventPk = SqliteFtsBackend.usageEvent store owner eventPk
  rawEvents (query : RawEventsQuery) (defaultPageSize : ℤ) (hfrom : ∀ moment ∈ query.fromTime, Kept moment)
    (hto : ∀ moment ∈ query.toTime, Kept moment) :
    PostgresEsBackend.rawEvents tables owner query defaultPageSize =
      SqliteFtsBackend.rawEvents store owner query defaultPageSize
  imageAttachment (attachmentId : Uuid) :
    Postgres.imageAttachment tables owner attachmentId = Storage.imageAttachment store owner attachmentId

theorem Twin.alike [Base64] (h : Twin tables store) (hreachable : Reachable store) (owner : Uuid) :
    AnswersAlike tables store owner := by
  have hagree := h.agree hreachable owner
  have hstructure : sessionStructure tables owner = Storage.sessionStructure store owner :=
    funext fun sessionPk => (sessionStructure_shared owner sessionPk).trans (hagree.sessionStructure sessionPk)
  have husage : ∀ eventPk, usageEvent tables owner eventPk = Storage.usageEvent store owner eventPk :=
    fun eventPk => (usageEvent_shared owner eventPk).trans (hagree.usageEvent eventPk)
  refine ⟨fun sessionPk => ?_, fun query hfrom hto => ?_, fun sessionPk => ?_, fun sessionPk => ?_,
    fun sessionPk head window => ?_, fun eventPk => ?_, fun eventPk window => ?_, fun eventPk => ?_,
    fun query defaultPageSize hfrom hto => ?_, fun attachmentId => ?_⟩
  · exact (sessionHeader_beside hagree.sound sessionPk).trans (hagree.sessionHeader sessionPk)
  · exact (listSessions_beside hagree.sound hagree.counters hfrom hto).trans (hagree.listSessions query)
  · exact (sessionStreams_shared owner sessionPk).trans (hagree.sessionStreams sessionPk)
  · exact (sessionTurns_shared owner sessionPk).trans (hagree.sessionTurns sessionPk)
  · exact (sessionSegment_shared owner sessionPk head window).trans (hagree.sessionSegment sessionPk head window)
  · exact (eventLocation_shared owner eventPk).trans (hagree.eventLocation eventPk)
  · rw [eventConversation_shared]
    exact congrArg ((preview · window) <$> ·) (hagree.usageEvent eventPk)
  · unfold PostgresEsBackend.usageEvent SqliteFtsBackend.usageEvent
    rw [husage, hstructure]
  · have hrows : Postgres.rawEvents tables query owner defaultPageSize =
        Storage.rawEvents store owner query defaultPageSize :=
      (rawEvents_beside hfrom hto defaultPageSize).trans (hagree.rawEvents query defaultPageSize)
    unfold PostgresEsBackend.rawEvents SqliteFtsBackend.rawEvents
    rw [hrows, hstructure]
  · exact (imageAttachment_shared owner attachmentId).trans (hagree.imageAttachment attachmentId)

end Events

section Redelivered

open Fixtures

local instance answersDigest : Sha256 := cargoDigest

local instance answersContent : Base64 := noContent

local instance answersCase : CaseMapping := asciiCase

end Redelivered

end AbyssBackend.Postgres
