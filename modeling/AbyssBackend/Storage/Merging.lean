import AbyssBackend.Storage.Constraints

namespace AbyssBackend.Storage

open Attachments Attempts Conversation Search Streams Text

def Store.withCaptures (captures : List DiagnosticCapture) (captureEvents : List DiagnosticCaptureEvent)
    (store : Store) : Store :=
  { store with
    captures
    captureEvents }

theorem write_map {rejected taken missing : Bool} {g : Store → Store} {after after' : Store} (h : after' = g after) :
    Store.write rejected taken missing after' = (Store.write rejected taken missing after).map g := by
  subst h
  cases rejected <;> cases taken <;> cases missing <;> rfl

section Events

variable {captures : List DiagnosticCapture} {captureEvents : List DiagnosticCaptureEvent} {store : Store}
  {userId deviceId sessionPk eventPk : Uuid} {event : IngestUsageEvent} {draw : EventDraw}

theorem upsertDevice_withCaptures (observedAt : ℤ) :
    upsertDevice userId event observedAt draw (store.withCaptures captures captureEvents) =
      (upsertDevice userId event observedAt draw store).map
        (Prod.map id (Store.withCaptures captures captureEvents)) := by
  unfold upsertDevice
  have hdevices : (store.withCaptures captures captureEvents).devices = store.devices := rfl
  rw [hdevices]
  cases Rows.find DeviceRow.key (userId, event.device.hostName, event.device.platform) store.devices with
  | some existing => rfl
  | none =>
    exact bind_related (g := Store.withCaptures captures captureEvents) (write_map rfl) (fun after _ => rfl)

theorem upsertSession_withCaptures (observedAt : ℤ) :
    upsertSession userId deviceId event observedAt draw (store.withCaptures captures captureEvents) =
      (upsertSession userId deviceId event observedAt draw store).map
        (Prod.map id (Store.withCaptures captures captureEvents)) := by
  unfold upsertSession
  have hsessions : (store.withCaptures captures captureEvents).sessions = store.sessions := rfl
  rw [hsessions]
  cases Rows.find SessionRow.key (userId, event.agent.name, event.sessionId) store.sessions with
  | some existing =>
    exact bind_related (g := Store.withCaptures captures captureEvents) (write_map rfl) (fun after _ => rfl)
  | none =>
    exact bind_related (g := Store.withCaptures captures captureEvents) (write_map rfl) (fun after _ => rfl)

theorem insertEvent_withCaptures (row : EventRow) :
    (store.withCaptures captures captureEvents).insertEvent row =
      (store.insertEvent row).map (Prod.map id (Store.withCaptures captures captureEvents)) := by
  unfold Store.insertEvent
  have hevents : (store.withCaptures captures captureEvents).events = store.events := rfl
  rw [hevents]
  split_ifs
  · rfl
  · rfl
  · exact bind_related (g := Store.withCaptures captures captureEvents) (write_map rfl) (fun after _ => rfl)

theorem insertAttachments_withCaptures (attachments : List ValidatedImageAttachment) :
    insertAttachments userId eventPk attachments draw (store.withCaptures captures captureEvents) =
      (insertAttachments userId eventPk attachments draw store).map (Store.withCaptures captures captureEvents) :=
  foldlM_over fun _ _ => write_map rfl

variable [Sha256] [CaseMapping]

theorem textId_withCaptures (text : String) :
    textId userId text (store.withCaptures captures captureEvents) =
      (textId userId text store).map (Prod.map id (Store.withCaptures captures captureEvents)) := by
  unfold textId Store.insertOrIgnoreText
  have htexts : (store.withCaptures captures captureEvents).searchTexts = store.searchTexts := rfl
  rw [htexts]
  by_cases hknown : (store.searchTexts.any fun other => other.hash == (userId, Sha256.digest text)) = true
  · simp only [hknown, if_true, htexts]
    cases Rows.find SearchText.hash (userId, Sha256.digest text) store.searchTexts with
    | none => rfl
    | some found => rfl
  · simp only [hknown]
    rfl

theorem pieceRefs_withCaptures (pieces : List Piece) (store : Store) :
    pieceRefs userId eventPk pieces (store.withCaptures captures captureEvents) =
      (pieceRefs userId eventPk pieces store).map (Prod.map id (Store.withCaptures captures captureEvents)) := by
  induction pieces generalizing store with
  | nil => rfl
  | cons piece rest ih =>
    unfold pieceRefs
    split_ifs
    · rfl
    · apply bind_related (textId_withCaptures piece.text)
      rintro ⟨id, after⟩ -
      apply bind_related (ih after)
      rintro ⟨refs, last⟩ -
      rfl

theorem indexEvent_withCaptures (conversation : Option Value) :
    indexEvent userId eventPk conversation (store.withCaptures captures captureEvents) =
      (indexEvent userId eventPk conversation store).map (Store.withCaptures captures captureEvents) := by
  unfold indexEvent
  apply bind_related (pieceRefs_withCaptures (pieces conversation) store)
  rintro ⟨refs, after⟩ -
  exact foldlM_over fun _ _ => write_map rfl

omit [Sha256] [CaseMapping] in
theorem capture_withCaptures (eventType : String) (observedAt now : ℤ) :
    capture userId sessionPk eventPk eventType observedAt now (store.withCaptures captures captureEvents) =
      (capture userId sessionPk eventPk eventType observedAt now store).map
        (Prod.map id (Store.withCaptures captures captureEvents)) := by
  unfold capture
  have htitles : (store.withCaptures captures captureEvents).sessionTitles = store.sessionTitles := rfl
  rw [htitles]
  split_ifs
  · rfl
  · rfl
  · exact bind_related (g := Store.withCaptures captures captureEvents) (write_map rfl) (fun after _ => rfl)

/-- Storing an event neither reads nor writes captures. -/
theorem ingestOneEvent_withCaptures (attachments : List ValidatedImageAttachment) :
    ingestOneEvent userId event attachments draw (store.withCaptures captures captureEvents) =
      (ingestOneEvent userId event attachments draw store).map
        (Prod.map id (Store.withCaptures captures captureEvents)) := by
  unfold ingestOneEvent
  have hevents : (store.withCaptures captures captureEvents).events = store.events := rfl
  rw [hevents]
  split_ifs
  · rfl
  · apply bind_related (upsertDevice_withCaptures _)
    rintro ⟨deviceId, withDevice⟩ -
    apply bind_related (upsertSession_withCaptures _)
    rintro ⟨sessionPk, withSession⟩ -
    apply bind_related (insertEvent_withCaptures _)
    rintro ⟨inserted, withEvent⟩ -
    by_cases hinserted : inserted = 1
    · subst hinserted
      simp only [Prod.map, id, ne_eq, not_true_eq_false, if_false]
      have hfacts : insertStreamFacts draw.eventPk event (withEvent.withCaptures captures captureEvents) =
          (insertStreamFacts draw.eventPk event withEvent).map (Store.withCaptures captures captureEvents) := by
        unfold insertStreamFacts Store.insertFacts
        exact write_map rfl
      apply bind_related hfacts
      rintro withFacts -
      apply bind_related (insertAttachments_withCaptures attachments)
      rintro withAttachments -
      apply bind_related (indexEvent_withCaptures event.conversation)
      rintro withIndex -
      apply bind_related (capture_withCaptures _ _ _)
      rintro ⟨-, withTitle⟩ -
      rfl
    · simp only [Prod.map, id, if_pos hinserted]
      rfl

end Events

section Runs

variable {ι : Type} {one : ι → ℕ → Store → Except AppError (Bool × Store)} {store : Store}

def Tally.plus (tally more : Tally) : Tally where
  accepted := tally.accepted + more.accepted
  duplicates := tally.duplicates + more.duplicates
  store := more.store

theorem plus_count (tally more : Tally) (outcome : Bool × Store) :
    (tally.plus more).count outcome = tally.plus (more.count outcome) := by
  obtain ⟨new, store⟩ := outcome
  cases new <;> rfl

theorem ingestFrom_plus (one : ι → ℕ → Store → Except AppError (Bool × Store)) (items : List ι) (first index : ℕ)
    (tally more : Tally) :
    ingestFrom one items (first + index) (tally.plus more) =
      (ingestFrom (fun item index => one item (first + index)) items index more).map tally.plus := by
  induction items generalizing index more with
  | nil => rfl
  | cons item items ih =>
    rw [ingestFrom_cons, ingestFrom_cons]
    have hstore : (tally.plus more).store = more.store := rfl
    rw [hstore]
    cases one item (first + index) more.store with
    | error error => rfl
    | ok outcome =>
      have hrest := ih (index + 1) (more.count outcome)
      rw [← plus_count] at hrest
      exact hrest

theorem ingestAll_append (xs ys : List ι) (store : Store) :
    ingestAll one (xs ++ ys) store = (do
      let tally ← ingestAll one xs store
      (ingestAll (fun item index => one item (xs.length + index)) ys tally.store).map tally.plus) := by
  unfold ingestAll
  rw [List.zipIdx_append, List.foldlM_append]
  congr 1
  funext tally
  have hrest := ingestFrom_plus one ys xs.length 0 tally ⟨0, 0, tally.store⟩
  rw [Nat.add_zero] at hrest
  rw [Nat.zero_add]
  exact hrest

theorem ingestAll_append_ok {xs ys : List ι} {tally : Tally} : ingestAll one (xs ++ ys) store = .ok tally ↔
    ∃ early late, ingestAll one xs store = .ok early ∧
      ingestAll (fun item index => one item (xs.length + index)) ys early.store = .ok late ∧
      tally = early.plus late := by
  rw [ingestAll_append, bind_eq_ok]
  simp only [map_eq_ok]
  constructor
  · rintro ⟨early, hearly, late, hlate, rfl⟩
    exact ⟨early, late, hearly, hlate, rfl⟩
  · rintro ⟨early, late, hearly, hlate, rfl⟩
    exact ⟨early, hearly, late, hlate, rfl⟩

def Tally.over (g : Store → Store) (tally : Tally) : Tally := { tally with store := g tally.store }

theorem over_count {g : Store → Store} {tally : Tally} {outcome : Bool × Store} :
    (tally.over g).count (Prod.map id g outcome) = (tally.count outcome).over g := by
  obtain ⟨new, after⟩ := outcome
  cases new <;> rfl

/-- A run over another store, where every step goes the same way over it. -/
theorem ingestAll_related {items : List ι} {g : Store → Store} {P : Store → Prop} (hstart : P store)
    (h : ∀ before, P before → ∀ item ∈ items, ∀ index,
      one item index (g before) = (one item index before).map (Prod.map id g) ∧
      ∀ new after, one item index before = .ok (new, after) → P after) :
    ingestAll one items (g store) = (ingestAll one items store).map (Tally.over g) := by
  refine foldlM_related (g := Tally.over g) (P := fun tally : Tally => P tally.store)
    (show P (Tally.mk 0 0 store).store from hstart) ?_
  rintro tally htally ⟨item, index⟩ hindexed
  obtain ⟨hstep, hkept⟩ := h tally.store htally item (List.fst_mem_of_mem_zipIdx hindexed) index
  constructor
  · apply bind_related hstep
    rintro outcome -
    exact congrArg Except.ok over_count
  · intro next hok
    obtain ⟨⟨new, after⟩, hone, hcount⟩ := bind_eq_ok.mp hok
    cases hcount
    rw [count_store]
    exact hkept new after hone

end Runs

section Captures

variable [Sha256] [CaseMapping] {userId : Uuid} {before after stored : Store} {capture : IngestDiagnosticCapture}
  {draw : CaptureDraw}

/-- The store with the captures of another. -/
def Store.capturing (store captured : Store) : Store := store.withCaptures captured.captures captured.captureEvents

theorem Grown.capturing (h : Grown before after) : after.capturing before = after := by
  unfold Store.capturing Store.withCaptures
  rw [← h.captures, ← h.captureEvents]

theorem Grown.referenced (h : Grown before after)
    (hids : ∀ eventId ∈ capture.eventIds, eventId ∈ before.events.map EventRow.eventId) :
    (after.events.filter fun row => row.userId == userId && capture.eventIds.contains row.eventId) =
      before.events.filter fun row => row.userId == userId && capture.eventIds.contains row.eventId := by
  obtain ⟨newer, hnewer⟩ := h.events
  have hnodup := h.soundAfter.hierarchy.eventIds
  rw [← hnewer, List.map_append, List.nodup_append] at hnodup
  -- A stored id is never stored again, so no newer event answers to the ids of the capture.
  have hnone : (newer.filter fun row => row.userId == userId && capture.eventIds.contains row.eventId) = [] := by
    rw [List.filter_eq_nil_iff]
    intro row hrow hreferenced
    rw [Bool.and_eq_true, List.contains_iff_mem] at hreferenced
    exact hnodup.2.2 _ (hids _ hreferenced.2) _ (List.mem_map_of_mem hrow) rfl
  rw [← hnewer, List.filter_append, hnone, List.append_nil]

theorem insertCapture_grown (h : Grown before after) (hstored : stored = before.capturing stored)
    {row : EventRow} (hrow : row ∈ before.events) :
    (after.capturing stored).insertCapture (newCapture userId row.deviceContextId row.sessionPk capture draw) =
      (stored.insertCapture (newCapture userId row.deviceContextId row.sessionPk capture draw)).map
        (Prod.map id after.capturing) := by
  have hmissing : ∀ store : Store, Sound store → row ∈ store.events →
      store.hasDevice row.deviceContextId = true ∧ store.hasSession row.sessionPk = true := by
    intro store hsound hmem
    obtain ⟨device, hdevice, hon⟩ := hsound.hierarchy.devices row hmem
    obtain ⟨session, hsession, hof⟩ := hsound.hierarchy.sessions row hmem
    exact ⟨hasDevice_iff.mpr (List.mem_map.mpr ⟨device, hdevice, hon.id⟩),
      hasSession_iff.mpr (List.mem_map.mpr ⟨session, hsession, hof.id⟩)⟩
  obtain ⟨hdevice, hsession⟩ := hmissing before h.sound hrow
  obtain ⟨hdevice', hsession'⟩ := hmissing after h.soundAfter (h.events.subset hrow)
  have hold : stored.hasUser userId = before.hasUser userId ∧ stored.hasDevice row.deviceContextId = true ∧
      stored.hasSession row.sessionPk = true := by
    rw [hstored]
    exact ⟨rfl, hdevice, hsession⟩
  have hnew : (after.capturing stored).hasUser userId = before.hasUser userId ∧
      (after.capturing stored).hasDevice row.deviceContextId = true ∧
      (after.capturing stored).hasSession row.sessionPk = true :=
    ⟨congrArg (fun users : List Uuid => users.contains userId) h.users, hdevice', hsession'⟩
  unfold Store.insertCapture
  have hcaptures : (after.capturing stored).captures = stored.captures := rfl
  rw [hcaptures]
  split_ifs
  · rfl
  · rfl
  · apply bind_related (g := after.capturing)
    · simp only [newCapture, hold, hnew]
      exact write_map rfl
    · rintro last -
      rfl

omit [Sha256] [CaseMapping] in
theorem insertCaptureEvent_grown {link : DiagnosticCaptureEvent} (hold : link.eventPk ∈ stored.events.map EventRow.id)
    (hnew : link.eventPk ∈ after.events.map EventRow.id) :
    (after.capturing stored).insertCaptureEvent link = (stored.insertCaptureEvent link).map after.capturing := by
  have hcaptures : (after.capturing stored).captures = stored.captures := rfl
  have hlinks : (after.capturing stored).captureEvents = stored.captureEvents := rfl
  have hafter : (after.capturing stored).hasEvent link.eventPk = true := hasEvent_iff.mpr hnew
  unfold Store.insertCaptureEvent
  rw [hcaptures, hlinks, hafter, hasEvent_iff.mpr hold]
  exact write_map rfl

omit [Sha256] [CaseMapping] in
theorem insertCapture_captured (hstored : stored = before.capturing stored) {row : DiagnosticCapture}
    {inserted : ℕ} {last : Store} (h : stored.insertCapture row = .ok (inserted, last)) :
    last = before.capturing last := by
  unfold Store.insertCapture at h
  split_ifs at h
  · cases h
    exact hstored
  · obtain ⟨written, hwritten, h⟩ := bind_eq_ok.mp h
    obtain ⟨-, -, -, rfl⟩ := Store.write_eq_ok.mp hwritten
    cases h
    rw [hstored]
    rfl

omit [Sha256] [CaseMapping] in
theorem insertCaptureEvent_captured (hstored : stored = before.capturing stored) {link : DiagnosticCaptureEvent}
    {last : Store} (h : stored.insertCaptureEvent link = .ok last) : last = before.capturing last := by
  obtain ⟨-, -, -, rfl⟩ := Store.write_eq_ok.mp h
  rw [hstored]
  rfl

/-- A capture of events of the smaller store goes the same way over the larger. -/
theorem ingestOneDiagnosticCapture_grown (h : Grown before after) (hstored : stored = before.capturing stored)
    (hids : ∀ eventId ∈ capture.eventIds, eventId ∈ before.events.map EventRow.eventId) :
    ingestOneDiagnosticCapture userId capture draw (after.capturing stored) =
      (ingestOneDiagnosticCapture userId capture draw stored).map (Prod.map id after.capturing) := by
  have hevents : stored.events = before.events := (congrArg Store.events hstored :)
  have hevents' : (after.capturing stored).events = after.events := rfl
  simp only [ingestOneDiagnosticCapture, hevents, hevents', h.referenced hids]
  generalize hrows : (before.events.filter fun row => row.userId == userId && capture.eventIds.contains row.eventId) =
    rows
  have hmem : ∀ row ∈ rows, row ∈ before.events := fun row hrow => (List.mem_filter.mp (hrows ▸ hrow)).1
  split_ifs
  · rfl
  · cases hfirst : rows.head? with
    | none => rfl
    | some first =>
      simp only
      split_ifs
      · rfl
      · apply bind_related (insertCapture_grown h hstored (hmem first (List.mem_of_head? hfirst)))
        rintro ⟨inserted, withCapture⟩ hinsert
        simp only [Prod.map, id]
        split_ifs
        · apply bind_related (g := after.capturing)
          · refine foldlM_related (P := fun stored => stored = before.capturing stored)
              (insertCapture_captured hstored hinsert) ?_
            intro linked hlinked row hrow
            have hold : linked.events = before.events := (congrArg Store.events hlinked :)
            refine ⟨insertCaptureEvent_grown ?_ ?_, fun last => insertCaptureEvent_captured hlinked⟩
            · exact List.mem_map_of_mem (hold ▸ hmem row hrow)
            · exact List.mem_map_of_mem (h.events.subset (hmem row hrow))
          · rintro last -
            rfl
        · rfl

theorem captures_grown (h : Grown before after) (userId : Uuid) (hstored : stored = before.capturing stored)
    (draws : ℕ → CaptureDraw) {captures : List IngestDiagnosticCapture}
    (hids : ∀ capture ∈ captures, ∀ eventId ∈ capture.eventIds, eventId ∈ before.events.map EventRow.eventId) :
    ingestAll (fun capture index => ingestOneDiagnosticCapture userId capture (draws index)) captures
        (after.capturing stored) =
      (ingestAll (fun capture index => ingestOneDiagnosticCapture userId capture (draws index)) captures stored).map
        (Tally.over after.capturing) := by
  -- Captures change no other table, so the earlier store stays apart from its captures what it was.
  refine ingestAll_related (P := fun stored => stored = before.capturing stored) hstored ?_
  intro stored hstored capture hcapture index
  refine ⟨ingestOneDiagnosticCapture_grown h hstored (hids capture hcapture), fun new last hone => ?_⟩
  obtain ⟨-, -, rfl⟩ | ⟨-, -, deviceId, sessionPk, rows, rfl⟩ := ingestOneDiagnosticCapture_cases hone
  · exact hstored
  · rw [hstored]
    rfl

theorem events_withCaptures {captures : List DiagnosticCapture} {captureEvents : List DiagnosticCaptureEvent}
    {items : List (IngestUsageEvent × List ValidatedImageAttachment)} {draws : ℕ → EventDraw} :
    ingestAll (fun item index => ingestOneEvent userId item.1 item.2 (draws index)) items
        (before.withCaptures captures captureEvents) =
      (ingestAll (fun item index => ingestOneEvent userId item.1 item.2 (draws index)) items before).map
        (Tally.over (Store.withCaptures captures captureEvents)) :=
  ingestAll_related (P := fun _ => True) trivial fun _ _ item _ _ =>
    ⟨ingestOneEvent_withCaptures item.2, fun _ _ _ => trivial⟩

end Captures

section Swap

variable [Sha256] [CaseMapping] {userId : Uuid} {store : Store} {events captures : Tally}
  {items : List (IngestUsageEvent × List ValidatedImageAttachment)} {referring : List IngestDiagnosticCapture}
  {eventDraws : ℕ → EventDraw} {captureDraws : ℕ → CaptureDraw}

/-- The events of the later part may come before the captures of the earlier one. -/
theorem captures_after_events (h : Sound store) (hids : ∀ capture ∈ referring, ∀ eventId ∈ capture.eventIds,
      eventId ∈ store.events.map EventRow.eventId)
    (hevents : ingestAll (fun item index => ingestOneEvent userId item.1 item.2 (eventDraws index)) items store =
      .ok events) :
    ingestAll (fun capture index => ingestOneDiagnosticCapture userId capture (captureDraws index)) referring
        events.store =
      (ingestAll (fun capture index => ingestOneDiagnosticCapture userId capture (captureDraws index)) referring
        store).map (Tally.over events.store.capturing) := by
  have hgrown := events_grown h hevents
  have hrun := captures_grown hgrown userId (show store = store.capturing store from rfl) captureDraws hids
  rwa [hgrown.capturing] at hrun

theorem events_after_captures (items : List (IngestUsageEvent × List ValidatedImageAttachment))
    (hcaptures : ingestAll (fun capture index => ingestOneDiagnosticCapture userId capture (captureDraws index))
      referring store = .ok captures) :
    ingestAll (fun item index => ingestOneEvent userId item.1 item.2 (eventDraws index)) items captures.store =
      (ingestAll (fun item index => ingestOneEvent userId item.1 item.2 (eventDraws index)) items store).map
        (Tally.over (Store.withCaptures captures.store.captures captures.store.captureEvents)) := by
  have hstored : captures.store = store.capturing captures.store := by
    refine ingestAll_keeps hcaptures (P := fun stored => stored = store.capturing stored) rfl ?_
    intro capture index before new after hbefore hstep
    obtain ⟨-, -, rfl⟩ | ⟨-, -, deviceId, sessionPk, rows, rfl⟩ := ingestOneDiagnosticCapture_cases hstep
    · exact hbefore
    · rw [hbefore]
      rfl
  conv_lhs => rw [hstored]
  exact events_withCaptures

end Swap

section Merge

variable [Sha256] [Base64] [CaseMapping] {first second request : IngestEventsRequest} {userId : Uuid}
  {maxBatchSize : ℕ} {draws : Draws} {store after : Store} {response : IngestEventsResponse}

def merged (first second : IngestEventsRequest) : IngestEventsRequest where
  events := first.events ++ second.events
  diagnosticCaptures := first.diagnosticCaptures ++ second.diagnosticCaptures

/-- The draws left after a batch. -/
def Draws.past (draws : Draws) (request : IngestEventsRequest) : Draws where
  event index := draws.event (request.events.length + index)
  capture index := draws.capture (request.diagnosticCaptures.length + index)

def summed (first second : IngestEventsResponse) : IngestEventsResponse where
  accepted := first.accepted + second.accepted
  duplicates := first.duplicates + second.duplicates
  rejected := first.rejected + second.rejected
  errors := first.errors ++ second.errors
  acceptedDiagnosticCaptures := first.acceptedDiagnosticCaptures + second.acceptedDiagnosticCaptures
  duplicateDiagnosticCaptures := first.duplicateDiagnosticCaptures + second.duplicateDiagnosticCaptures

/-- Every capture refers to events of its own batch. -/
def SelfContained (request : IngestEventsRequest) : Prop :=
  ∀ capture ∈ request.diagnosticCaptures, capture.eventIds ⊆ request.events.map IngestUsageEvent.eventId

structure Mergeable (maxBatchSize : ℕ) (first second : IngestEventsRequest) : Prop where
  events : first.events.length + second.events.length ≤ maxBatchSize
  captures : first.diagnosticCaptures.length + second.diagnosticCaptures.length ≤ maxBatchSize
  captureIds : (first.diagnosticCaptures.map IngestDiagnosticCapture.captureId).Disjoint
    (second.diagnosticCaptures.map IngestDiagnosticCapture.captureId)

omit [CaseMapping] in
theorem validateBatch_merged {validated : List (List ValidatedImageAttachment)} (hfirst : SelfContained first)
    (hsecond : SelfContained second) : validateBatch (merged first second) maxBatchSize = .ok validated ↔
    Mergeable maxBatchSize first second ∧ ∃ early late, validated = early ++ late ∧
      validateBatch first maxBatchSize = .ok early ∧ validateBatch second maxBatchSize = .ok late := by
  simp only [validateBatch_iff, validateCaptures_iff, merged, List.length_append, List.mapM_append, List.map_append]
  constructor
  · rintro ⟨hevents, hattachments, hcaptures, hcorrelated, hnodup, -⟩
    obtain ⟨early, hearly, hattachments⟩ := bind_eq_ok.mp hattachments
    obtain ⟨late, hlate, hboth⟩ := bind_eq_ok.mp hattachments
    cases hboth
    obtain ⟨hnodupFirst, hnodupSecond, hdisjoint⟩ := List.nodup_append'.mp hnodup
    refine ⟨⟨hevents, hcaptures, hdisjoint⟩, early, late, rfl, ⟨?_, hearly, ?_, ?_, hnodupFirst, ?_⟩,
      ?_, hlate, ?_, ?_, hnodupSecond, ?_⟩
    · omega
    · omega
    · intro capture hcapture
      exact validateEventCorrelation_known (hcorrelated capture (List.mem_append_left _ hcapture))
        (hfirst capture hcapture)
    · exact fun _ _ => List.not_mem_nil
    · omega
    · omega
    · intro capture hcapture
      exact validateEventCorrelation_known (hcorrelated capture (List.mem_append_right _ hcapture))
        (hsecond capture hcapture)
    · exact fun _ _ => List.not_mem_nil
  · rintro ⟨hfits, early, late, rfl, ⟨-, hearly, -, hcorrelatedFirst, hnodupFirst, -⟩,
      -, hlate, -, hcorrelatedSecond, hnodupSecond, -⟩
    refine ⟨hfits.events, ?_, hfits.captures, ?_, ?_, fun _ _ => List.not_mem_nil⟩
    · exact bind_eq_ok.mpr ⟨early, hearly, bind_eq_ok.mpr ⟨late, hlate, rfl⟩⟩
    · intro capture hcapture
      obtain hmem | hmem := List.mem_append.mp hcapture
      · exact validateEventCorrelation_known (hcorrelatedFirst capture hmem)
          (List.Subset.trans (hfirst capture hmem) (List.subset_append_left ..))
      · exact validateEventCorrelation_known (hcorrelatedSecond capture hmem)
          (List.Subset.trans (hsecond capture hmem) (List.subset_append_right ..))
    · exact List.nodup_append'.mpr ⟨hnodupFirst, hnodupSecond, hfits.captureIds⟩

omit [CaseMapping] in
theorem merged_zip (second : IngestEventsRequest) (late : List (List ValidatedImageAttachment))
    {early : List (List ValidatedImageAttachment)} (h : validateBatch first maxBatchSize = .ok early) :
    (merged first second).events.zip (early ++ late) = first.events.zip early ++ second.events.zip late ∧
      (first.events.zip early).length = first.events.length := by
  have hlength := validateBatch_length h
  refine ⟨List.zip_append hlength.symm, ?_⟩
  rw [List.length_zip, hlength, min_self]

theorem referenced_stored (h : Sound store) (hcontained : SelfContained request)
    {validated : List (List ValidatedImageAttachment)} (hvalid : validateBatch request maxBatchSize = .ok validated)
    {eventDraws : ℕ → EventDraw} {events : Tally} (hok : ingestAll (fun item index =>
      ingestOneEvent userId item.1 item.2 (eventDraws index)) (request.events.zip validated) store = .ok events) :
    ∀ capture ∈ request.diagnosticCaptures, ∀ eventId ∈ capture.eventIds,
      eventId ∈ events.store.events.map EventRow.eventId := by
  have hstored : ∀ item ∈ request.events.zip validated, item.1.eventId ∈ events.store.events.map EventRow.eventId := by
    refine (ingestAll_each hok (I := Sound)
      (Q := fun item after => item.1.eventId ∈ after.events.map EventRow.eventId) h ?_).2
    intro item index before new after hbefore hone
    obtain ⟨hkept, hold⟩ := ingestOneEvent_keeps hbefore hone
    exact ⟨hbefore.ingestOneEvent hone, hkept, fun other => hold _⟩
  intro capture hcapture eventId heventId
  obtain ⟨event, hevent, rfl⟩ := List.mem_map.mp (hcontained capture hcapture heventId)
  rw [← List.map_fst_zip (validateBatch_length hvalid).ge] at hevent
  obtain ⟨item, hitem, rfl⟩ := List.mem_map.mp hevent
  exact hstored item hitem

/-- Two batches that fit into one are stored as the one is. -/
theorem Reachable.merged_iff (h : Reachable store) (hfirst : SelfContained first) (hsecond : SelfContained second) :
    ingestEvents (merged first second) userId maxBatchSize draws store = .ok (response, after) ↔
      Mergeable maxBatchSize first second ∧
      ∃ early middle late, ingestEvents first userId maxBatchSize draws store = .ok (early, middle) ∧
        ingestEvents second userId maxBatchSize (draws.past first) middle = .ok (late, after) ∧
        response = summed early late := by
  constructor
  · intro hok
    obtain ⟨validated, events, captures, hvalid, hevents, hcaptures, rfl, rfl⟩ := ingestEvents_ok.mp hok
    obtain ⟨hfits, validFirst, validSecond, rfl, hvalidFirst, hvalidSecond⟩ :=
      (validateBatch_merged hfirst hsecond).mp hvalid
    obtain ⟨hzip, hlength⟩ := merged_zip second validSecond hvalidFirst
    rw [hzip] at hevents
    obtain ⟨eventsFirst, eventsSecond, heventsFirst, heventsSecond, rfl⟩ := ingestAll_append_ok.mp hevents
    obtain ⟨capturesFirst, capturesSecond, hcapturesFirst, hcapturesSecond, rfl⟩ := ingestAll_append_ok.mp hcaptures
    rw [hlength] at heventsSecond
    have hsound : Sound eventsFirst.store := (events_grown h.sound heventsFirst).soundAfter
    have hids := referenced_stored h.sound hfirst hvalidFirst heventsFirst
    obtain ⟨early, hearly, rfl⟩ := map_eq_ok.mp
      ((captures_after_events hsound hids heventsSecond).symm.trans hcapturesFirst)
    -- The later events are stored before the earlier captures in the one batch, and after them in the two.
    have hlate := (events_after_captures (second.events.zip validSecond) hearly).trans
      (congrArg (Except.map _) heventsSecond)
    refine ⟨hfits, responseOf eventsFirst early, early.store, responseOf _ capturesSecond, ?_, ?_, rfl⟩
    · exact ingestEvents_ok.mpr ⟨validFirst, eventsFirst, early, hvalidFirst, heventsFirst, hearly, rfl, rfl⟩
    · exact ingestEvents_ok.mpr ⟨validSecond, _, capturesSecond, hvalidSecond, hlate, hcapturesSecond, rfl, rfl⟩
  · rintro ⟨hfits, responseFirst, middle, responseSecond, hokFirst, hokSecond, rfl⟩
    obtain ⟨validFirst, eventsFirst, early, hvalidFirst, heventsFirst, hearly, rfl, rfl⟩ := ingestEvents_ok.mp hokFirst
    obtain ⟨validSecond, eventsLate, capturesSecond, hvalidSecond, heventsLate, hcapturesSecond, rfl, rfl⟩ :=
      ingestEvents_ok.mp hokSecond
    have hsound : Sound eventsFirst.store := (events_grown h.sound heventsFirst).soundAfter
    have hids := referenced_stored h.sound hfirst hvalidFirst heventsFirst
    obtain ⟨eventsSecond, heventsSecond, rfl⟩ := map_eq_ok.mp ((events_after_captures _ hearly).symm.trans heventsLate)
    have hcapturesFirst := (captures_after_events hsound hids heventsSecond).trans (congrArg (Except.map _) hearly)
    obtain ⟨hzip, hlength⟩ := merged_zip second validSecond hvalidFirst
    have hevents : ingestAll (fun item index => ingestOneEvent userId item.1 item.2 (draws.event index))
        ((merged first second).events.zip (validFirst ++ validSecond)) store = .ok (eventsFirst.plus eventsSecond) := by
      rw [hzip]
      refine ingestAll_append_ok.mpr ⟨eventsFirst, eventsSecond, heventsFirst, ?_, rfl⟩
      rw [hlength]
      exact heventsSecond
    have hcaptures := ingestAll_append_ok.mpr ⟨_, capturesSecond, hcapturesFirst, hcapturesSecond, rfl⟩
    have hvalid := (validateBatch_merged hfirst hsecond).mpr
      ⟨hfits, validFirst, validSecond, rfl, hvalidFirst, hvalidSecond⟩
    exact ingestEvents_ok.mpr ⟨_, _, _, hvalid, hevents, hcaptures, rfl, rfl⟩

def joined (requests : List IngestEventsRequest) : IngestEventsRequest where
  events := requests.flatMap IngestEventsRequest.events
  diagnosticCaptures := requests.flatMap IngestEventsRequest.diagnosticCaptures

structure Fits (maxBatchSize : ℕ) (requests : List IngestEventsRequest) : Prop where
  events : (joined requests).events.length ≤ maxBatchSize
  captures : (joined requests).diagnosticCaptures.length ≤ maxBatchSize
  captureIds : requests.Pairwise fun first second =>
    (first.diagnosticCaptures.map IngestDiagnosticCapture.captureId).Disjoint
      (second.diagnosticCaptures.map IngestDiagnosticCapture.captureId)

/-- Ingests batch after batch, until one fails. -/
def ingestInTurn (userId : Uuid) (maxBatchSize : ℕ) :
    List IngestEventsRequest → Draws → Store → Except AppError (IngestEventsResponse × Store)
  | [], _, store => .ok (responseOf ⟨0, 0, store⟩ ⟨0, 0, store⟩, store)
  | request :: rest, draws, store => do
    let (early, store) ← ingestEvents request userId maxBatchSize draws store
    let (late, store) ← ingestInTurn userId maxBatchSize rest (draws.past request) store
    return (summed early late, store)

variable {requests : List IngestEventsRequest}

omit [Sha256] [Base64] [CaseMapping] in
theorem joined_cons : joined (first :: requests) = merged first (joined requests) := by
  simp only [joined, merged, List.flatMap_cons]

omit [Sha256] [Base64] [CaseMapping] in
theorem joined_selfContained (h : ∀ request ∈ requests, SelfContained request) : SelfContained (joined requests) := by
  intro capture hcapture eventId heventId
  obtain ⟨request, hrequest, hmem⟩ := List.mem_flatMap.mp hcapture
  obtain ⟨event, hevent, rfl⟩ := List.mem_map.mp (h request hrequest capture hmem heventId)
  exact List.mem_map_of_mem (List.mem_flatMap.mpr ⟨request, hrequest, hevent⟩)

omit [Sha256] [Base64] [CaseMapping] in
theorem fits_cons : Fits maxBatchSize (first :: requests) ↔
    Mergeable maxBatchSize first (joined requests) ∧ Fits maxBatchSize requests := by
  have hevents : (joined (first :: requests)).events.length =
      first.events.length + (joined requests).events.length := by
    rw [joined_cons, merged, List.length_append]
  have hcaptures : (joined (first :: requests)).diagnosticCaptures.length =
      first.diagnosticCaptures.length + (joined requests).diagnosticCaptures.length := by
    rw [joined_cons, merged, List.length_append]
  have hids : (first.diagnosticCaptures.map IngestDiagnosticCapture.captureId).Disjoint
        ((joined requests).diagnosticCaptures.map IngestDiagnosticCapture.captureId) ↔
      ∀ second ∈ requests, (first.diagnosticCaptures.map IngestDiagnosticCapture.captureId).Disjoint
        (second.diagnosticCaptures.map IngestDiagnosticCapture.captureId) := by
    rw [joined, List.map_flatMap]
    constructor
    · intro h second hsecond captureId hmem hother
      exact h hmem (List.mem_flatMap.mpr ⟨second, hsecond, hother⟩)
    · intro h captureId hmem hother
      obtain ⟨second, hsecond, hin⟩ := List.mem_flatMap.mp hother
      exact h second hsecond hmem hin
  constructor
  · intro h
    obtain ⟨hfirst, hrest⟩ := List.pairwise_cons.mp h.captureIds
    have hsize := hevents ▸ h.events
    have hheld := hcaptures ▸ h.captures
    exact ⟨⟨hsize, hheld, hids.mpr hfirst⟩, (Nat.le_add_left _ _).trans hsize, (Nat.le_add_left _ _).trans hheld, hrest⟩
  · rintro ⟨hfirst, hrest⟩
    exact ⟨hevents ▸ hfirst.events, hcaptures ▸ hfirst.captures,
      List.pairwise_cons.mpr ⟨hids.mp hfirst.captureIds, hrest.captureIds⟩⟩

/-- Where the batches end is without effect: a batch is stored as any batches it is split into are. -/
theorem Reachable.joined_iff (h : Reachable store) (hcontained : ∀ request ∈ requests, SelfContained request) :
    ingestEvents (joined requests) userId maxBatchSize draws store = .ok (response, after) ↔
      Fits maxBatchSize requests ∧ ingestInTurn userId maxBatchSize requests draws store = .ok (response, after) := by
  induction requests generalizing store draws response after with
  | nil =>
    have hfits : Fits maxBatchSize [] := ⟨Nat.zero_le _, Nat.zero_le _, .nil⟩
    have hnothing : ingestEvents (joined []) userId maxBatchSize draws store =
        ingestInTurn userId maxBatchSize [] draws store := rfl
    rw [hnothing, and_iff_right hfits]
  | cons first requests ih =>
    rw [List.forall_mem_cons] at hcontained
    rw [joined_cons, h.merged_iff hcontained.1 (joined_selfContained hcontained.2), fits_cons, and_assoc]
    refine and_congr_right fun hfits => ?_
    rw [ingestInTurn, bind_eq_ok]
    constructor
    · rintro ⟨early, middle, late, hearly, hlate, rfl⟩
      obtain ⟨hrest, hturn⟩ := (ih (h.ingested_ok hearly) hcontained.2).mp hlate
      exact ⟨hrest, (early, middle), hearly, bind_eq_ok.mpr ⟨(late, after), hturn, rfl⟩⟩
    · rintro ⟨hrest, ⟨early, middle⟩, hearly, hrun⟩
      obtain ⟨⟨late, last⟩, hturn, hdone⟩ := bind_eq_ok.mp hrun
      cases hdone
      exact ⟨early, middle, late, hearly, (ih (h.ingested_ok hearly) hcontained.2).mpr ⟨hrest, hturn⟩, rfl⟩

end Merge

section Batches

open Fixtures

local instance mergedDigest : Sha256 := cargoDigest

local instance mergedContent : Base64 := noContent

local instance mergedCase : CaseMapping := asciiCase

def secondBatch : IngestEventsRequest where
  events := [event "e2" 3 .request [⟨"user", "cargo test", none, none⟩]]
  diagnosticCaptures := [captureOf "c2" ["e2"]]

theorem ingestInTurn_batches : ∃ after, ingestInTurn 1 10 [batch, secondBatch] (draws 100) emptyStore =
    .ok (⟨3, 1, 0, [], 2, 0⟩, after) := by
  rw [ingestInTurn, ingestEvents_batch]
  exact ⟨_, rfl⟩

theorem Reachable.joined_batches : ∃ after,
    ingestEvents (joined [batch, secondBatch]) 1 10 (draws 100) emptyStore = .ok (⟨3, 1, 0, [], 2, 0⟩, after) := by
  have hcontained : ∀ request ∈ [batch, secondBatch], SelfContained request := by
    unfold SelfContained
    decide
  have hfits : Fits 10 [batch, secondBatch] :=
    ⟨by decide, by decide, by simp [batch, secondBatch, captureOf]⟩
  obtain ⟨after, hturn⟩ := ingestInTurn_batches
  exact ⟨after, (Reachable.joined_iff (.start [1]) hcontained).mpr ⟨hfits, hturn⟩⟩

end Batches

end AbyssBackend.Storage
