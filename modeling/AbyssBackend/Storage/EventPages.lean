import Mathlib
import AbyssBackend.Library.Paging
import AbyssBackend.Storage.ExactFilters

namespace AbyssBackend.Storage

open Attempts Paging Search Sorting Streams Text

section Grows

variable [Sha256] [Base64] [CaseMapping]

/-- A store, and one that a batch makes of it. -/
def Ingested (store after : Store) : Prop :=
  ∃ request userId maxBatchSize draws, after = afterIngest request userId maxBatchSize draws store

/-- Batches make the one store of the other. -/
abbrev Later : Store → Store → Prop := Relation.ReflTransGen Ingested

variable {store after : Store}

theorem Reachable.ingested (h : Reachable store) (hingested : Ingested store after) : Reachable after := by
  obtain ⟨request, userId, maxBatchSize, draws, rfl⟩ := hingested
  exact .ingest h request userId maxBatchSize draws

theorem Sound.events_ingested (h : Sound store) (hingested : Ingested store after) :
    store.events <+: after.events := by
  obtain ⟨request, userId, maxBatchSize, draws, rfl⟩ := hingested
  unfold afterIngest
  split
  · next response after hok =>
    obtain ⟨validated, events, captures, -, hevents, hcaptures, rfl, rfl⟩ := ingestEvents_ok.mp hok
    have hgrown := events_grown h hevents
    apply ingestAll_keeps hcaptures (P := fun after => store.events <+: after.events) hgrown.events
    intro capture index before new after hprefix hstep
    obtain ⟨-, -, rfl⟩ | ⟨-, -, deviceId, sessionPk, rows, rfl⟩ := ingestOneDiagnosticCapture_cases hstep
    · exact hprefix
    · exact hprefix
  · exact List.prefix_rfl

theorem Reachable.later (h : Reachable store) (hlater : Later store after) :
    Reachable after ∧ store.events <+: after.events := by
  induction hlater with
  | refl => exact ⟨h, List.prefix_rfl⟩
  | @tail middle after _ hingested ih =>
    obtain ⟨hmiddle, hprefix⟩ := ih
    exact ⟨hmiddle.ingested hingested, hprefix.trans (hmiddle.sound.events_ingested hingested)⟩

end Grows

/-- The filters of a query, whatever page it asks for. -/
def askedFilters (owner : Uuid) (query : RawEventsQuery) : EventFilters where
  userId := owner
  fromTime := query.fromTime
  toTime := query.toTime
  agentNames := query.agentName
  sessionIds := query.sessionId
  sessionPk := query.sessionPk
  llmProviders := query.llmProvider
  llmModels := query.llmModel
  eventType := query.eventType
  limit := 0
  offset := 0

def askedType (query : RawEventsQuery) : Except AppError (Option String) :=
  (query.eventType.bind nonEmpty).mapM validateEventType

/-- All events that a query asks for, the newest first. -/
def asked (store : Store) (owner : Uuid) (query : RawEventsQuery) : List EventRow :=
  match askedType query with
  | .ok eventType => sortBy newestFirst (store.events.filter ((askedFilters owner query).admits eventType))
  | .error _ => []

def pageSize (query : RawEventsQuery) (defaultLimit : ℤ) : ℕ := (normalizeLimit query.limit defaultLimit 1000).toNat

def pageStart (query : RawEventsQuery) : ℕ := (max (query.offset.getD 0) 0).toNat

section Asked

variable {store after : Store} {owner : Uuid} {query : RawEventsQuery} {event : EventRow}

theorem asked_eq {eventType : Option String} (h : askedType query = .ok eventType) :
    asked store owner query =
      sortBy newestFirst (store.events.filter ((askedFilters owner query).admits eventType)) := by
  rw [asked, h]

theorem mem_asked (h : event ∈ asked store owner query) : event ∈ store.events ∧ event.userId = owner := by
  unfold asked at h
  split at h
  · next eventType hvalid =>
    obtain ⟨hmem, hadmits⟩ := List.mem_filter.mp (mem_sortBy.mp h)
    simp only [EventFilters.admits, Bool.and_eq_true] at hadmits
    exact ⟨hmem, beq_iff_eq.mp hadmits.1.1.1.1.1.1.1.1⟩
  · cases h

theorem asked_sublist (h : store.events <+: after.events) (owner : Uuid) (query : RawEventsQuery) :
    (asked store owner query).Sublist (asked after owner query) := by
  unfold asked
  split
  · apply sortBy_sublist
    apply List.Sublist.filter
    exact h.sublist
  · exact List.Sublist.refl _

theorem withoutContent_map {α : Type} {f : EventRow → α} (hf : ∀ event, f event.withoutContent = f event)
    (includeContent : Bool) (rows : List EventRow) :
    (if includeContent then rows else rows.map EventRow.withoutContent).map f = rows.map f := by
  cases includeContent with
  | true => rfl
  | false =>
    rw [if_neg Bool.false_ne_true, List.map_map]
    exact List.map_congr_left fun event _ => hf event

theorem loadFilteredEvents_asked {eventType : Option String} (hvalid : askedType query = .ok eventType)
    (limit offset : ℕ) (includeContent : Bool) :
    loadFilteredEvents store
      { askedFilters owner query with
        limit
        offset } includeContent = .ok
      (if includeContent then pageAt limit offset (asked store owner query)
        else (pageAt limit offset (asked store owner query)).map EventRow.withoutContent) := by
  rw [asked_eq hvalid]
  exact bind_eq_ok.mpr ⟨eventType, hvalid, rfl⟩

theorem pageAt_take {α : Type} (size offset : ℕ) (xs : List α) :
    (pageAt (size + 1) offset xs).take size = pageAt size offset xs := by
  unfold pageAt
  rw [List.take_take, Nat.min_eq_left (Nat.le_succ size)]

/-- One more than the page is loaded if there is a next page. -/
theorem length_pageAt {α : Type} (size offset : ℕ) (xs : List α) :
    (pageAt (size + 1) offset xs).length > size ↔ offset + size < xs.length := by
  unfold pageAt
  rw [List.length_take, List.length_drop]
  omega

/-- What of an event and of its response is the same. -/
def EventRow.place (event : EventRow) : Uuid × Uuid := (event.id, event.sessionPk)

def responsePlace (response : UsageEventResponse) : Uuid × Uuid := (response.id, response.sessionPk)

theorem eventResponses_places (store : Store) (events : List EventRow) (includeContent : Bool) :
    (eventResponses store events includeContent).map responsePlace = events.map EventRow.place := by
  rw [eventResponses, List.map_map]
  rfl

/-- A page of what is asked for, and where the next one starts. -/
structure AskedPage (store : Store) (owner : Uuid) (query : RawEventsQuery) (size : ℕ)
    (response : RawEventsResponse) : Prop where
  events : response.events.map responsePlace =
    (pageAt size (pageStart query) (asked store owner query)).map EventRow.place
  nextPageToken : response.nextPageToken =
    if pageStart query + size < (asked store owner query).length then
      some (toString (min (pageStart query + size : ℤ) i64Max)) else none

theorem rawEvents_asked {eventType : Option String} (hvalid : askedType query = .ok eventType) (store : Store)
    (owner : Uuid) (defaultLimit : ℤ) :
    ∃ response, rawEvents store owner query defaultLimit = .ok response ∧
      AskedPage store owner query (pageSize query defaultLimit) response := by
  have hsize : normalizeLimit query.limit defaultLimit 1000 = pageSize query defaultLimit := by
    unfold pageSize normalizeLimit
    omega
  have hbounds : 0 < pageSize query defaultLimit ∧ pageSize query defaultLimit ≤ 1000 := by
    unfold pageSize normalizeLimit
    omega
  have hstart : max (query.offset.getD 0) 0 = pageStart query := by
    unfold pageStart
    omega
  have hlimit : saturatingAdd (pageSize query defaultLimit) 1 = (pageSize query defaultLimit + 1 : ℕ) := by
    unfold saturatingAdd i64Min i64Max
    omega
  have hnext : saturatingAdd (pageStart query) (pageSize query defaultLimit) =
      min (pageStart query + pageSize query defaultLimit : ℤ) i64Max := by
    unfold saturatingAdd i64Min i64Max
    omega
  generalize pageSize query defaultLimit = size at *
  generalize hrows : asked store owner query = rows
  have hloaded := @loadFilteredEvents_asked store owner query eventType hvalid (size + 1) (pageStart query)
    query.includesContent
  rw [hrows] at hloaded
  have hmore : (if query.includesContent then pageAt (size + 1) (pageStart query) rows
      else (pageAt (size + 1) (pageStart query) rows).map EventRow.withoutContent).length > size ↔
      pageStart query + size < rows.length := by
    rw [← length_pageAt]
    cases query.includesContent with
    | true => rfl
    | false => rw [if_neg Bool.false_ne_true, List.length_map]
  unfold rawEvents
  simp only [hsize, hstart, hlimit, hnext, Int.toNat_natCast]
  refine ⟨_, bind_eq_ok.mpr ⟨_, hloaded, rfl⟩, ?_, ?_⟩
  · simp only [eventResponses_places, take_of_longer]
    rw [List.map_take, withoutContent_map fun _ => rfl, ← List.map_take, pageAt_take, hrows]
  · simp only [hmore, hrows]

end Asked

section Located

variable {store : Store} {owner : Uuid} {query : RawEventsQuery}

theorem Hierarchy.locateEvents_ok (h : Hierarchy store) {events : List UsageEventResponse}
    (hevents : ∀ response ∈ events, ∃ event ∈ store.events, event.userId = owner ∧
      event.sessionPk = response.sessionPk) :
    ∃ located, locateEvents events (sessionStructure store owner) = .ok located ∧
      located.map responsePlace = events.map responsePlace := by
  have hall : ∀ response ∈ events, ∃ located, (do
      let derived ← sessionStructure store owner response.sessionPk
      return { response with location := derived.eventPosition response.id } : Except AppError UsageEventResponse) =
        .ok located ∧ responsePlace response = responsePlace located := by
    intro response hresponse
    obtain ⟨event, hevent, rfl, hsame⟩ := hevents response hresponse
    obtain ⟨session, hsession, hof⟩ := h.sessions event hevent
    obtain ⟨derived, hderived⟩ := h.structure_ok hsession
    rw [hof.userId, hof.id, hsame] at hderived
    exact ⟨_, bind_eq_ok.mpr ⟨derived, hderived, rfl⟩, rfl⟩
  obtain ⟨located, hlocated, hplaces⟩ := mapM_all hall
  refine ⟨located, hlocated, ?_⟩
  have hmaps : List.Forall₂ (· = ·) (events.map responsePlace) (located.map responsePlace) :=
    List.forall₂_map_left_iff.mpr (List.forall₂_map_right_iff.mpr hplaces)
  rw [List.forall₂_eq_eq_eq] at hmaps
  exact hmaps.symm

theorem Hierarchy.rawEvents_located (h : Hierarchy store) {eventType : Option String}
    (hvalid : askedType query = .ok eventType) (owner : Uuid) (defaultLimit : ℤ) :
    ∃ response, SqliteFtsBackend.rawEvents store owner query defaultLimit = .ok response ∧
      AskedPage store owner query (pageSize query defaultLimit) response := by
  obtain ⟨response, hresponse, hpage⟩ := rawEvents_asked hvalid store owner defaultLimit
  by_cases hlocate : query.locate = true
  · have hevents : ∀ listed ∈ response.events, ∃ event ∈ store.events, event.userId = owner ∧
        event.sessionPk = listed.sessionPk := by
      intro listed hlisted
      have hplace := List.mem_map_of_mem (f := responsePlace) hlisted
      rw [hpage.events] at hplace
      obtain ⟨event, hevent, hsame⟩ := List.mem_map.mp hplace
      obtain ⟨hmem, howner⟩ := mem_asked (pageAt_subset _ _ _ hevent)
      exact ⟨event, hmem, howner, congrArg Prod.snd hsame⟩
    obtain ⟨located, hlocated, hplaces⟩ := h.locateEvents_ok hevents
    refine ⟨{ response with events := located }, ?_, hplaces.trans hpage.events, hpage.nextPageToken⟩
    refine bind_eq_ok.mpr ⟨response, hresponse, ?_⟩
    rw [if_pos hlocate]
    exact bind_eq_ok.mpr ⟨located, hlocated, rfl⟩
  · refine ⟨response, bind_eq_ok.mpr ⟨response, hresponse, ?_⟩, hpage⟩
    rw [if_neg hlocate]
    rfl

end Located

/-- The pages that a reader gets who asks for the page at an offset, and then for that at each page's token. `R` is what
happens to the store between two of them. -/
inductive Pages (R : Store → Store → Prop) (owner : Uuid) (query : RawEventsQuery) (defaultLimit : ℤ) :
    Option ℤ → Store → List UsageEventResponse → Store → Prop
  | last {offset : Option ℤ} {store : Store} {response : RawEventsResponse}
      (hpage : SqliteFtsBackend.rawEvents store owner { query with offset } defaultLimit = .ok response)
      (hend : response.nextPageToken = none) : Pages R owner query defaultLimit offset store response.events store
  | next {offset : Option ℤ} {store after final : Store} {response : RawEventsResponse} {next : ℤ}
      {shown : List UsageEventResponse}
      (hpage : SqliteFtsBackend.rawEvents store owner { query with offset } defaultLimit = .ok response)
      (hmore : response.nextPageToken = some (toString next)) (hchange : R store after)
      (hrest : Pages R owner query defaultLimit (some next) after shown final) :
      Pages R owner query defaultLimit offset store (response.events ++ shown) final

section Walks

variable {store : Store} {owner : Uuid} {query : RawEventsQuery} {defaultLimit : ℤ}

/-- The keys of all events that a query asks for, the newest first. -/
def askedPks (store : Store) (owner : Uuid) (query : RawEventsQuery) : List Uuid :=
  (asked store owner query).map EventRow.id

theorem length_askedPks (store : Store) (owner : Uuid) (query : RawEventsQuery) :
    (askedPks store owner query).length ≤ store.events.length := by
  rw [askedPks, List.length_map]
  unfold asked
  split
  · rw [(sortBy_perm newestFirst _).length_eq]
    apply List.length_filter_le
  · exact Nat.zero_le _

theorem AskedPage.ids {size : ℕ} {response : RawEventsResponse} (h : AskedPage store owner query size response) :
    response.events.map UsageEventResponse.id = pageAt size (pageStart query) (askedPks store owner query) := by
  have hids := congrArg (List.map Prod.fst) h.events
  rw [List.map_map, List.map_map] at hids
  rw [pageAt, askedPks, ← List.map_drop, ← List.map_take]
  exact hids

theorem Hierarchy.page_ok (h : Hierarchy store) {response : RawEventsResponse} {offset : Option ℤ}
    (hpage : SqliteFtsBackend.rawEvents store owner { query with offset } defaultLimit = .ok response) :
    AskedPage store owner { query with offset } (pageSize query defaultLimit) response := by
  cases hvalid : askedType query with
  | ok eventType =>
    obtain ⟨response', hresponse', hasked⟩ :=
      @Hierarchy.rawEvents_located store { query with offset } h eventType hvalid owner defaultLimit
    cases hpage.symm.trans hresponse'
    exact hasked
  | error error =>
    exfalso
    obtain ⟨loaded, hloaded, -⟩ := bind_eq_ok.mp hpage
    obtain ⟨rows, hrows, -⟩ := bind_eq_ok.mp hloaded
    obtain ⟨eventType, hok, -⟩ := bind_eq_ok.mp hrows
    cases hvalid.symm.trans hok

theorem pageStart_some (query : RawEventsQuery) (next : ℤ) :
    pageStart { query with offset := some next } = next.toNat := by
  simp only [pageStart, Option.getD_some]
  omega

/-- The pages are those of a walk over the keys. -/
theorem Pages.walk {R : Store → Store → Prop} {S : List Uuid → List Uuid → Prop} {P : Store → Prop}
    (hsound : ∀ store, P store → Hierarchy store)
    (hstep : ∀ store after, P store → R store after →
      P after ∧ S (askedPks store owner query) (askedPks after owner query))
    {offset : Option ℤ} {shown : List UsageEventResponse} {final : Store}
    (h : Pages R owner query defaultLimit offset store shown final) (hstore : P store) :
    Walk S (pageSize query defaultLimit) i64Max.toNat (pageStart { query with offset }) (askedPks store owner query)
      (shown.map UsageEventResponse.id) (askedPks final owner query) := by
  induction h with
  | @last offset store response hpage hend =>
    have hasked := (hsound store hstore).page_ok hpage
    rw [hasked.ids]
    apply Walk.last
    have hnone := hasked.nextPageToken.symm.trans hend
    split_ifs at hnone with hmore
    rw [askedPks, List.length_map]
    exact not_lt.mp hmore
  | @next offset store after final response next shown hpage hmore hchange hrest ih =>
    have hasked := (hsound store hstore).page_ok hpage
    obtain ⟨hafter, hkeys⟩ := hstep store after hstore hchange
    have hsome := hasked.nextPageToken.symm.trans hmore
    split_ifs at hsome with hlength
    have hnext : min (pageStart { query with offset } + pageSize query defaultLimit : ℤ) i64Max = next :=
      Int.repr_injective (Option.some.inj hsome)
    have hstart : pageStart { query with offset := some next } =
        min (pageStart { query with offset } + pageSize query defaultLimit) i64Max.toNat := by
      have hmax : i64Max = i64Max.toNat := rfl
      rw [pageStart_some, ← hnext]
      omega
    have hwalk := ih hafter
    rw [hstart] at hwalk
    rw [List.map_append, hasked.ids]
    refine .next ?_ hkeys hwalk
    rw [askedPks, List.length_map]
    exact hlength

/-- From a store that stays as it is there are such pages. -/
theorem Pages.still (h : Hierarchy store) {eventType : Option String} (hvalid : askedType query = .ok eventType)
    {start : ℕ} {keys seen final : List Uuid}
    (hwalk : Walk Eq (pageSize query defaultLimit) i64Max.toNat start keys seen final)
    (hkeys : keys = askedPks store owner query) {offset : Option ℤ} (hstart : pageStart { query with offset } = start) :
    ∃ shown, Pages Eq owner query defaultLimit offset store shown store := by
  induction hwalk generalizing offset with
  | @last start keys hend =>
    subst hkeys hstart
    obtain ⟨response, hpage, hasked⟩ :=
      @Hierarchy.rawEvents_located store { query with offset } h eventType hvalid owner defaultLimit
    refine ⟨_, .last hpage ?_⟩
    rw [askedPks, List.length_map] at hend
    exact hasked.nextPageToken.trans (if_neg (not_lt.mpr hend))
  | @next start keys _ seen final hmore hchange hrest ih =>
    subst hchange hkeys hstart
    obtain ⟨response, hpage, hasked⟩ :=
      @Hierarchy.rawEvents_located store { query with offset } h eventType hvalid owner defaultLimit
    rw [askedPks, List.length_map] at hmore
    have htoken := hasked.nextPageToken.trans (if_pos hmore)
    obtain ⟨shown, hshown⟩ := @ih rfl
      (some (min (pageStart { query with offset } + pageSize query defaultLimit : ℤ) i64Max)) (by
        have hmax : i64Max = i64Max.toNat := rfl
        rw [pageStart_some]
        omega)
    exact ⟨_, .next hpage htoken rfl hshown⟩

end Walks

section Complete

variable [Sha256] [Base64] [CaseMapping] {store : Store}

/-- However batches are ingested between the pages, no event that a query asked for at first is missed, and nothing is
shown that it does not ask for; without such batches the pages are all it asks for, each event once. -/
theorem Reachable.pages_complete (h : Reachable store) (owner : Uuid) (query : RawEventsQuery) (defaultLimit : ℤ) :
    (∀ shown final, Pages Later owner query defaultLimit none store shown final →
      (askedPks store owner query).Sublist (shown.map UsageEventResponse.id) ∧
      shown.map UsageEventResponse.id ⊆ askedPks final owner query) ∧
    ∀ eventType, askedType query = .ok eventType → store.events.length ≤ i64Max.toNat →
      ∃ shown, Pages Eq owner query defaultLimit none store shown store ∧
        shown.map UsageEventResponse.id = askedPks store owner query := by
  constructor
  · intro shown final hpages
    have hgrows : ∀ xs ys : List Uuid, xs.Sublist ys → xs.Sublist ys := fun _ _ hgrown => hgrown
    have hwalk := hpages.walk (S := List.Sublist) (P := Reachable) (fun _ h => h.sound.hierarchy) (by
      intro store after hstore hlater
      obtain ⟨hafter, hprefix⟩ := hstore.later hlater
      exact ⟨hafter, (asked_sublist hprefix owner query).map _⟩) h
    obtain ⟨-, hshown⟩ := hwalk.seen_subset hgrows
    exact ⟨hwalk.covers hgrows, hshown⟩
  · intro eventType hvalid hlength
    have hasked := (length_askedPks store owner query).trans hlength
    have hsize : 0 < pageSize query defaultLimit := by
      unfold pageSize normalizeLimit
      omega
    obtain ⟨seen, hseen⟩ := Walk.ends hsize hasked 0
    have hstill : ∃ shown, Pages Eq owner query defaultLimit none store shown store :=
      Pages.still h.sound.hierarchy hvalid hseen rfl rfl
    obtain ⟨shown, hpages⟩ := hstill
    have hwalk := hpages.walk (S := Eq) (P := fun same => same = store) (fun _ hsame => hsame ▸ h.sound.hierarchy) (by
      rintro same after rfl rfl
      exact ⟨rfl, rfl⟩) rfl
    exact ⟨shown, hpages, hwalk.still hasked⟩

end Complete

section Grown

open Fixtures

local instance pagedDigest : Sha256 := cargoDigest

local instance pagedContent : Base64 := noContent

local instance pagedCase : CaseMapping := asciiCase

def laterBatch : IngestEventsRequest where
  events := [Fixtures.event "e2" 3 .request []]
  diagnosticCaptures := []

def grownStore : Store := afterIngest laterBatch 1 10 (draws 1000) batchStore

def oneByOne : RawEventsQuery := { agentEvents "codex_exec" with limit := some 1 }

set_option maxRecDepth 8000 in
/-- A newer event pushes one that was shown onto the next page: it is shown again, and none is missed. -/
theorem Reachable.pages_grown : ∃ shown, Pages Later 1 oneByOne 100 none batchStore shown grownStore ∧
    shown.map UsageEventResponse.id = [102, 102, 106] ∧
    (askedPks batchStore 1 oneByOne).Sublist (shown.map UsageEventResponse.id) := by
  have hreachable : Reachable batchStore := .ingest (.start [1]) batch 1 10 (draws 100)
  obtain ⟨first, hfirst, hfirstPks, hfirstNext⟩ : ∃ response,
      SqliteFtsBackend.rawEvents batchStore 1 { oneByOne with offset := none } 100 = .ok response ∧
      response.events.map UsageEventResponse.id = [102] ∧ response.nextPageToken = some (toString (1 : ℤ)) :=
    ⟨_, rfl, rfl, rfl⟩
  obtain ⟨second, hsecond, hsecondPks, hsecondNext⟩ : ∃ response,
      SqliteFtsBackend.rawEvents grownStore 1 { oneByOne with offset := some 1 } 100 = .ok response ∧
      response.events.map UsageEventResponse.id = [102] ∧ response.nextPageToken = some (toString (2 : ℤ)) :=
    ⟨_, rfl, rfl, rfl⟩
  obtain ⟨third, hthird, hthirdPks, hthirdNext⟩ : ∃ response,
      SqliteFtsBackend.rawEvents grownStore 1 { oneByOne with offset := some 2 } 100 = .ok response ∧
      response.events.map UsageEventResponse.id = [106] ∧ response.nextPageToken = none :=
    ⟨_, rfl, rfl, rfl⟩
  have hgrown : Later batchStore grownStore := .single ⟨laterBatch, 1, 10, draws 1000, rfl⟩
  have hpages : Pages Later 1 oneByOne 100 none batchStore (first.events ++ (second.events ++ third.events))
      grownStore :=
    .next hfirst hfirstNext hgrown (.next hsecond hsecondNext .refl (.last hthird hthirdNext))
  refine ⟨_, hpages, ?_, ((Reachable.pages_complete hreachable 1 oneByOne 100).1 _ _ hpages).1⟩
  rw [List.map_append, List.map_append, hfirstPks, hsecondPks, hthirdPks]
  rfl

end Grown

end AbyssBackend.Storage
