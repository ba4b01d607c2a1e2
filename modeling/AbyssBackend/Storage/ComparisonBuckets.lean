import AbyssBackend.Library.Intervals
import AbyssBackend.Storage.Comparison
import AbyssBackend.Storage.Replays
import AbyssBackend.Storage.TokenTotals

namespace AbyssBackend.Storage

open Attempts Buckets Intervals Search Sorting Streams Text

/-- The event is observed in the bucket. -/
def Within (bucket : ComparisonBucket) (event : EventRow) : Prop :=
  bucket.start ≤ timestampFromMicros event.observedAt ∧ timestampFromMicros event.observedAt < bucket.end_

/-- The event is joined to the bucket, by microseconds. -/
def Joined (bucket : ComparisonBucket) (event : EventRow) : Prop :=
  timestampToMicros bucket.start ≤ event.observedAt ∧ event.observedAt < timestampToMicros bucket.end_

instance (bucket : ComparisonBucket) (event : EventRow) : Decidable (Within bucket event) :=
  inferInstanceAs (Decidable (_ ∧ _))

instance (bucket : ComparisonBucket) (event : EventRow) : Decidable (Joined bucket event) :=
  inferInstanceAs (Decidable (_ ∧ _))

/-- The values that a comparison filters by. -/
def passesFilters (query : ComparisonQuery) (event : EventRow) (device : DeviceRow) : Bool :=
  anyOf query.filters.agent event.agentName && anyOf query.filters.model event.llmModel &&
  anyOf query.filters.provider event.llmProvider && anyOf query.filters.platform device.platform &&
  anyOf query.filters.session event.sessionId

def comparisonFrom (query : ComparisonQuery) : ℤ := (query.buckets.head?.map (timestampToMicros ·.start)).getD 0

def comparisonTo (query : ComparisonQuery) : ℤ := (query.buckets.getLast?.map (timestampToMicros ·.end_)).getD 0

section Definitions

variable (store : Store) (userId : Uuid)

def Passing (query : ComparisonQuery) (event : EventRow) : Prop :=
  event ∈ store.events ∧ event.userId = userId ∧
    ∃ device ∈ devicesOf store event, passesFilters query event device = true

/-- Events with their devices, labelled as those of one bucket. -/
def labelledEvents (label : ℤ) (p : EventRow → Bool) (q : EventRow → DeviceRow → Bool) : List ComparedEvent :=
  (store.events.filter fun event => event.userId == userId && p event).flatMap fun event =>
    ((devicesOf store event).filter (q event)).map fun device => ⟨label, event, device⟩

/-- The matching events observed in a bucket. -/
def matchingEvents (query : ComparisonQuery) (bucket : ComparisonBucket) : List ComparedEvent :=
  labelledEvents store userId (timestampMillis bucket.start) (fun event => Within bucket event) (passesFilters query)

/-- The events that the query joins to its buckets. -/
def joinedEvents (query : ComparisonQuery) : List ComparedEvent :=
  comparedEvents store userId query (comparisonFrom query) (comparisonTo query)

/-- The events that a row of the result counts. -/
def rowEvents (query : ComparisonQuery) (row : ComparisonRow) : List ComparedEvent :=
  (joinedEvents store userId query).filter fun compared =>
    compared.bucket = row.bucket ∧ comparedValue query.groupBy compared = row.value

structure CountsApart (query : ComparisonQuery) (response : ComparisonResponse) : Prop where
  totals : ∀ row ∈ response.rows,
    row.totalTokens = ((rowEvents store userId query row).map fun compared => compared.event.totalTokens).sum ∧
    row.requests = ((rowEvents store userId query row).filter
      fun compared => compared.event.eventType == "request").length
  once : ∀ event, Passing store userId query event → ∀ first ∈ query.buckets.head?, ∀ last ∈ query.buckets.getLast?,
    first.start ≤ timestampFromMicros event.observedAt → timestampFromMicros event.observedAt < last.end_ →
    (response.rows.flatMap (rowEvents store userId query)).countP (fun compared => compared.event.id == event.id) = 1
  apart : ∀ bucket ∈ query.buckets,
    ((response.rows.filter fun row => row.bucket = timestampMillis bucket.start).flatMap
      (rowEvents store userId query)).Perm (matchingEvents store userId query bucket)

/-- The comparison does not fail, and keeps the events of its buckets apart. -/
def KeepsApart (query : ComparisonQuery) : Prop :=
  ∃ response, compare store userId query = .ok response ∧ CountsApart store userId query response

/-- No matching event is at a time that microseconds put in another bucket, or in a bucket whose start is in one
millisecond with another's; and each total fits. -/
structure Separable (query : ComparisonQuery) : Prop where
  precise : ∀ bucket ∈ query.buckets, ∀ event, Passing store userId query event →
    (Within bucket event ↔ Joined bucket event)
  labelled : ∀ bucket ∈ query.buckets, ∀ other ∈ query.buckets,
    timestampMillis bucket.start = timestampMillis other.start → bucket ≠ other →
    ∀ event, Passing store userId query event → ¬ Within bucket event
  fits : ∀ bucket ∈ query.buckets, ∀ value, (((matchingEvents store userId query bucket).filter fun compared =>
    comparedValue query.groupBy compared = value).map fun compared => compared.event.totalTokens).sum ≤ i64Max

end Definitions

section Accepted

variable {query : ComparisonQuery}

/-- The buckets of a query that is accepted. -/
structure Accepted (query : ComparisonQuery) : Prop where
  nonempty : query.buckets ≠ []
  forward : ∀ bucket ∈ query.buckets, bucket.start < bucket.end_
  contiguous : Contiguous ComparisonBucket.start ComparisonBucket.end_ query.buckets

theorem contiguous_of_zip {buckets : List ComparisonBucket}
    (h : ((buckets.zip buckets.tail).all fun (bucket, next) => bucket.end_ = next.start) = true) :
    Contiguous ComparisonBucket.start ComparisonBucket.end_ buckets := by
  induction buckets with
  | nil => exact .nil
  | cons bucket buckets ih =>
    cases buckets with
    | nil => exact .singleton bucket
    | cons next rest =>
      rw [List.tail_cons, List.zip_cons_cons, List.all_cons, Bool.and_eq_true, decide_eq_true_eq] at h
      exact .cons_cons h.1 (ih h.2)

theorem accepted_of_validate (h : query.validate = .ok ()) : Accepted query := by
  unfold ComparisonQuery.validate at h
  split at h
  · next first last hfirst hlast =>
    by_cases hlong : query.buckets.length > maxComparisonBuckets ∨ last.end_ - first.start > maxComparisonRange
    · rw [if_pos hlong] at h
      cases h
    · rw [if_neg hlong] at h
      by_cases hordered : ((query.buckets.any fun bucket => bucket.start ≥ bucket.end_) || !query.contiguous) = true
      · simp only [hordered, if_true] at h
        cases h
      · rw [Bool.or_eq_true, not_or, Bool.not_eq_true, Bool.not_eq_true, List.any_eq_false,
          Bool.not_eq_false'] at hordered
        refine ⟨?_, fun bucket hbucket => ?_, contiguous_of_zip hordered.2⟩
        · rintro hnil
          rw [hnil] at hfirst
          cases hfirst
        · simpa using hordered.1 bucket hbucket
  · cases h

end Accepted

section Joins

variable {store : Store} {userId : Uuid} {query : ComparisonQuery} {label : ℤ} {p : EventRow → Bool}
  {q : EventRow → DeviceRow → Bool} {bucket : ComparisonBucket} {compared : ComparedEvent}

theorem mem_labelledEvents : compared ∈ labelledEvents store userId label p q ↔
    compared.bucket = label ∧ (compared.event ∈ store.events ∧ compared.event.userId = userId) ∧
      p compared.event = true ∧ compared.device ∈ devicesOf store compared.event ∧
      q compared.event compared.device = true := by
  simp only [labelledEvents, List.mem_flatMap, List.mem_filter, List.mem_map, Bool.and_eq_true, beq_iff_eq]
  constructor
  · rintro ⟨event, ⟨hevent, howner, hp⟩, device, ⟨hdevice, hq⟩, rfl⟩
    exact ⟨rfl, ⟨hevent, howner⟩, hp, hdevice, hq⟩
  · rintro ⟨rfl, ⟨hevent, howner⟩, hp, hdevice, hq⟩
    exact ⟨compared.event, ⟨hevent, howner, hp⟩, compared.device, ⟨hdevice, hq⟩, rfl⟩

theorem joinedEvents_eq (store : Store) (userId : Uuid) (query : ComparisonQuery) : joinedEvents store userId query =
    query.buckets.flatMap fun bucket => labelledEvents store userId (timestampMillis bucket.start)
      (fun event => Joined bucket event) (comparisonFilters query (comparisonFrom query) (comparisonTo query)) := by
  rw [joinedEvents, comparedEvents]
  apply List.flatMap_congr
  intro bucket _
  rw [labelledEvents]
  congr 1
  apply List.filter_congr
  intro event _
  rw [Bool.eq_iff_iff]
  simp only [Bool.and_eq_true, beq_iff_eq, decide_eq_true_eq, ge_iff_le, and_assoc]
  exact Iff.rfl

theorem timestampToMicros_mono {moment later : DateTime} (h : moment ≤ later) :
    timestampToMicros moment ≤ timestampToMicros later := Int.ediv_le_ediv (by decide) h

theorem Accepted.ordered (h : Accepted query) :
    query.buckets.Pairwise fun bucket next => bucket.end_ ≤ next.start :=
  h.contiguous.ordered fun bucket hbucket => (h.forward bucket hbucket).le

theorem Accepted.range (h : Accepted query) (hbucket : bucket ∈ query.buckets) {event : EventRow}
    (hjoined : Joined bucket event) :
    comparisonFrom query ≤ event.observedAt ∧ event.observedAt < comparisonTo query := by
  have hforward : ∀ bucket ∈ query.buckets, bucket.start ≤ bucket.end_ := fun bucket hbucket =>
    (h.forward bucket hbucket).le
  obtain ⟨first, hfirst⟩ : ∃ first, query.buckets.head? = some first :=
    Option.ne_none_iff_exists'.mp (by simpa using h.nonempty)
  obtain ⟨last, hlast⟩ : ∃ last, query.buckets.getLast? = some last :=
    Option.ne_none_iff_exists'.mp (by simpa using h.nonempty)
  have hstart : first.start ≤ bucket.start := h.contiguous.first_le hforward hfirst hbucket
  have hend : bucket.end_ ≤ last.end_ := h.contiguous.le_last hforward hlast hbucket
  rw [comparisonFrom, comparisonTo, hfirst, hlast]
  exact ⟨(timestampToMicros_mono hstart).trans hjoined.1, hjoined.2.trans_le (timestampToMicros_mono hend)⟩

theorem mem_joinedEvents (h : Accepted query) : compared ∈ joinedEvents store userId query ↔
    ∃ bucket ∈ query.buckets, compared.bucket = timestampMillis bucket.start ∧
      (compared.event ∈ store.events ∧ compared.event.userId = userId) ∧ Joined bucket compared.event ∧
      compared.device ∈ devicesOf store compared.event ∧ passesFilters query compared.event compared.device = true := by
  rw [joinedEvents_eq, List.mem_flatMap]
  apply exists_congr
  intro bucket
  apply and_congr_right
  intro hbucket
  rw [mem_labelledEvents, decide_eq_true_eq]
  apply and_congr_right
  intro _
  apply and_congr_right
  intro _
  apply and_congr_right
  intro hjoined
  apply and_congr_right
  intro _
  obtain ⟨hfrom, hto⟩ := h.range hbucket hjoined
  simp only [comparisonFilters, passesFilters, ge_iff_le, hfrom, hto, decide_true, Bool.true_and]

/-- An event has no more than one device, and so is labelled no more than once. -/
theorem labelledEvents_ids (h : Hierarchy store) :
    ((labelledEvents store userId label p q).map fun compared => compared.event.id).Nodup := by
  have hdevices : ∀ event, (devicesOf store event).length ≤ 1 := fun event =>
    Rows.filter_length_le_one h.deviceIds fun device _ hdevice => beq_iff_eq.mp hdevice
  have hsublist : ((labelledEvents store userId label p q).map fun compared => compared.event.id).Sublist
      ((store.events.filter fun event => event.userId == userId && p event).map EventRow.id) := by
    apply Rows.flatMap_keys_sublist
    · intro event _
      rw [List.length_map]
      exact (List.length_filter_le _ _).trans (hdevices event)
    · intro event _ compared hcompared
      obtain ⟨device, -, rfl⟩ := List.mem_map.mp hcompared
      rfl
  exact hsublist.nodup (h.eventPks.sublist (List.filter_sublist.map _))

theorem joinedEvents_ids (h : Hierarchy store) (haccepted : Accepted query) :
    ((joinedEvents store userId query).map fun compared => compared.event.id).Nodup := by
  rw [joinedEvents_eq, List.map_flatMap, List.nodup_flatMap]
  refine ⟨fun bucket _ => labelledEvents_ids h, haccepted.ordered.imp ?_⟩
  intro bucket next hordered id hid hid'
  obtain ⟨compared, hcompared, rfl⟩ := List.mem_map.mp hid
  obtain ⟨other, hother, hsame⟩ := List.mem_map.mp hid'
  obtain ⟨-, ⟨hevent, -⟩, hjoined, -⟩ := mem_labelledEvents.mp hcompared
  obtain ⟨-, ⟨hevent', -⟩, hjoined', -⟩ := mem_labelledEvents.mp hother
  have heq : other.event = compared.event := List.inj_on_of_nodup_map h.eventPks hevent' hevent hsame
  rw [decide_eq_true_eq] at hjoined hjoined'
  rw [heq] at hjoined'
  exact absurd (hjoined.2.trans_le ((timestampToMicros_mono hordered).trans hjoined'.1)) (lt_irrefl _)

end Joins

section Rows

variable {store : Store} {userId : Uuid} {query : ComparisonQuery} {response : ComparisonResponse}

def comparisonKey (query : ComparisonQuery) (compared : ComparedEvent) : ℤ ×ₗ String :=
  toLex (compared.bucket, comparedValue query.groupBy compared)

theorem filter_comparisonKey (key : ℤ ×ₗ String) (rows : List ComparedEvent) :
    (rows.filter fun compared => comparisonKey query compared = key) =
      rows.filter fun compared => compared.bucket = (ofLex key).1 ∧
        comparedValue query.groupBy compared = (ofLex key).2 := by
  apply List.filter_congr
  intro compared _
  rw [decide_eq_decide]
  constructor
  · rintro rfl
    exact ⟨rfl, rfl⟩
  · rintro ⟨hbucket, hvalue⟩
    rw [comparisonKey, hbucket, hvalue]
    rfl

theorem joinedEvents_nonneg (h : CountersKept store) : ∀ compared ∈ joinedEvents store userId query,
    0 ≤ compared.event.totalTokens := by
  intro compared hcompared
  rw [joinedEvents_eq] at hcompared
  obtain ⟨bucket, -, hcompared⟩ := List.mem_flatMap.mp hcompared
  obtain ⟨-, ⟨hevent, -⟩, -⟩ := mem_labelledEvents.mp hcompared
  exact (TokenCounts.forall_columns.mp (h compared.event hevent)).2.2.2.2.2

theorem group_nonneg (h : CountersKept store) {group : (ℤ ×ₗ String) × List ComparedEvent}
    (hgroup : group ∈ buckets (comparisonKey query) (joinedEvents store userId query)) :
    ∀ compared ∈ group.2, 0 ≤ compared.event.totalTokens := by
  intro compared hcompared
  rw [(mem_buckets.mp hgroup).2] at hcompared
  exact joinedEvents_nonneg h compared (List.mem_filter.mp hcompared).1

theorem comparisonRow_eq_ok {key : ℤ ×ₗ String} {rows : List ComparedEvent} {row : ComparisonRow}
    (hnonneg : ∀ compared ∈ rows, 0 ≤ compared.event.totalTokens) : comparisonRow key rows = .ok row ↔
      (rows.map fun compared => compared.event.totalTokens).sum ≤ i64Max ∧ row =
        { bucket := (ofLex key).1
          value := (ofLex key).2
          totalTokens := (rows.map fun compared => compared.event.totalTokens).sum
          requests := (rows.filter fun compared => compared.event.eventType == "request").length } := by
  have htokens : ∀ value ∈ rows.map fun compared => compared.event.totalTokens, 0 ≤ value :=
    List.forall_mem_map.mpr hnonneg
  rw [comparisonRow, sqliteSum_eq htokens, bigint_of_nonneg (List.sum_nonneg htokens)]
  split_ifs with hfits
  · rw [and_iff_right hfits]
    constructor
    · intro h
      cases h
      rfl
    · rintro rfl
      rfl
  · constructor
    · intro h
      cases h
    · intro h
      exact absurd h.1 hfits

theorem compare_eq_ok (h : query.validate = .ok ()) : compare store userId query = .ok response ↔
    (buckets (comparisonKey query) (joinedEvents store userId query)).mapM
      (fun group => comparisonRow group.1 group.2) = .ok response.rows ∧ response.options =
        comparisonOptions store userId (comparisonFrom query) (comparisonTo query) := by
  have hnonempty := (accepted_of_validate h).nonempty
  obtain ⟨first, hfirst⟩ : ∃ first, query.buckets.head? = some first :=
    Option.ne_none_iff_exists'.mp (by simpa using hnonempty)
  obtain ⟨last, hlast⟩ : ∃ last, query.buckets.getLast? = some last :=
    Option.ne_none_iff_exists'.mp (by simpa using hnonempty)
  have hfrom : comparisonFrom query = timestampToMicros first.start := by rw [comparisonFrom, hfirst]; rfl
  have hto : comparisonTo query = timestampToMicros last.end_ := by rw [comparisonTo, hlast]; rfl
  rw [joinedEvents, hfrom, hto, compare, h, hfirst, hlast]
  constructor
  · intro hok
    obtain ⟨_, -, hok⟩ := bind_eq_ok.mp hok
    obtain ⟨rows, hrows, hok⟩ := bind_eq_ok.mp hok
    cases hok
    exact ⟨hrows, rfl⟩
  · rintro ⟨hrows, hoptions⟩
    refine bind_eq_ok.mpr ⟨(), rfl, bind_eq_ok.mpr ⟨response.rows, hrows, ?_⟩⟩
    rw [← hoptions]
    rfl

theorem mem_rowEvents {row : ComparisonRow} {compared : ComparedEvent} :
    compared ∈ rowEvents store userId query row ↔ compared ∈ joinedEvents store userId query ∧
      comparisonKey query compared = toLex (row.bucket, row.value) := by
  rw [rowEvents, List.mem_filter, decide_eq_true_eq, comparisonKey, toLex_inj, Prod.mk.injEq]

/-- The groups of the query, one for each row of its result. -/
theorem compare_rows (h : query.validate = .ok ()) (hcounters : CountersKept store)
    (hok : compare store userId query = .ok response) :
    (buckets (comparisonKey query) (joinedEvents store userId query)).map Prod.snd =
        response.rows.map (rowEvents store userId query) ∧
      ∀ row ∈ response.rows,
        row.totalTokens = ((rowEvents store userId query row).map fun compared => compared.event.totalTokens).sum ∧
        row.requests = ((rowEvents store userId query row).filter
          fun compared => compared.event.eventType == "request").length := by
  have hrows := mapM_ok ((compare_eq_ok h).mp hok).1
  have hgroup : ∀ group ∈ buckets (comparisonKey query) (joinedEvents store userId query), ∀ row,
      comparisonRow group.1 group.2 = .ok row → group.2 = rowEvents store userId query row ∧
        row.totalTokens = (group.2.map fun compared => compared.event.totalTokens).sum ∧
        row.requests = (group.2.filter fun compared => compared.event.eventType == "request").length := by
    intro group hgroup row hrow
    obtain ⟨-, hmembers⟩ := mem_buckets.mp hgroup
    obtain ⟨-, rfl⟩ := (comparisonRow_eq_ok (group_nonneg hcounters hgroup)).mp hrow
    refine ⟨?_, rfl, rfl⟩
    rw [hmembers, rowEvents, filter_comparisonKey]
  refine ⟨Rows.forall₂_map_eq hrows fun group hmem row _ hrow => (hgroup group hmem row hrow).1, fun row hrow => ?_⟩
  obtain ⟨group, hmem, hcounted⟩ := Rows.forall₂_mem_right hrows hrow
  obtain ⟨hsame, htotals⟩ := hgroup group hmem row hcounted
  rw [← hsame]
  exact htotals

theorem rows_perm (h : query.validate = .ok ()) (hcounters : CountersKept store)
    (hok : compare store userId query = .ok response) :
    (response.rows.flatMap (rowEvents store userId query)).Perm (joinedEvents store userId query) := by
  rw [List.flatMap_def, ← (compare_rows h hcounters hok).1, ← List.flatMap_def]
  exact buckets_flatten

theorem labelledRows_perm (h : query.validate = .ok ()) (hcounters : CountersKept store)
    (hok : compare store userId query = .ok response) (label : ℤ) :
    ((response.rows.filter fun row => row.bucket = label).flatMap (rowEvents store userId query)).Perm
      ((joinedEvents store userId query).filter fun compared => compared.bucket = label) := by
  rw [← Rows.filter_flatMap_of (p := fun compared => decide (compared.bucket = label))]
  · exact (rows_perm h hcounters hok).filter _
  · intro row _ compared hcompared
    obtain ⟨-, hkey⟩ := mem_rowEvents.mp hcompared
    rw [comparisonKey, toLex_inj, Prod.mk.injEq] at hkey
    rw [hkey.1]

/-- The comparison fails exactly where a total does not fit. -/
theorem compare_ok_iff (h : query.validate = .ok ()) (hcounters : CountersKept store) :
    (∃ response, compare store userId query = .ok response) ↔ ∀ label value,
      (((joinedEvents store userId query).filter fun compared =>
        compared.bucket = label ∧ comparedValue query.groupBy compared = value).map
          fun compared => compared.event.totalTokens).sum ≤ i64Max := by
  constructor
  · rintro ⟨response, hok⟩ label value
    by_cases hexists : ∃ compared ∈ joinedEvents store userId query, comparisonKey query compared = toLex (label, value)
    · obtain ⟨compared, hcompared, hkey⟩ := hexists
      have hgroup := @bucket_of_mem _ _ _ (comparisonKey query) _ _ hcompared
      obtain ⟨row, -, hrow⟩ := Rows.forall₂_mem_left (mapM_ok ((compare_eq_ok h).mp hok).1) hgroup
      obtain ⟨hfits, -⟩ := (comparisonRow_eq_ok (group_nonneg hcounters hgroup)).mp hrow
      rw [hkey, filter_comparisonKey] at hfits
      exact hfits
    · rw [List.filter_eq_nil_iff.mpr]
      · exact Int.le_of_lt (by decide)
      · intro compared hcompared hsame
        rw [decide_eq_true_eq] at hsame
        apply hexists
        refine ⟨compared, hcompared, ?_⟩
        rw [comparisonKey, hsame.1, hsame.2]
  · intro hfits
    have hcounted : ∀ group ∈ buckets (comparisonKey query) (joinedEvents store userId query),
        ∃ row, comparisonRow group.1 group.2 = .ok row ∧ True := by
      intro group hgroup
      refine ⟨_, (comparisonRow_eq_ok (group_nonneg hcounters hgroup)).mpr ⟨?_, rfl⟩, trivial⟩
      rw [(mem_buckets.mp hgroup).2, filter_comparisonKey]
      exact hfits _ _
    obtain ⟨rows, hrows, -⟩ := mapM_all hcounted
    exact ⟨⟨rows, comparisonOptions store userId (comparisonFrom query) (comparisonTo query)⟩,
      (compare_eq_ok h).mpr ⟨hrows, rfl⟩⟩

end Rows

section Apart

variable {store : Store} {userId : Uuid} {query : ComparisonQuery} {bucket other : ComparisonBucket}
  {compared : ComparedEvent} {event : EventRow}

theorem filter_label_value (label : ℤ) (value : String) (rows : List ComparedEvent) :
    ((rows.filter fun compared => compared.bucket = label).filter fun compared =>
        comparedValue query.groupBy compared = value) =
      rows.filter fun compared => compared.bucket = label ∧ comparedValue query.groupBy compared = value := by
  rw [List.filter_filter]
  apply List.filter_congr
  intro compared _
  rw [Bool.and_comm, Bool.decide_and]

theorem mem_matchingEvents : compared ∈ matchingEvents store userId query bucket ↔
    compared.bucket = timestampMillis bucket.start ∧ (compared.event ∈ store.events ∧ compared.event.userId = userId) ∧
      Within bucket compared.event ∧ compared.device ∈ devicesOf store compared.event ∧
      passesFilters query compared.event compared.device = true := by
  rw [matchingEvents, mem_labelledEvents, decide_eq_true_eq]

theorem Accepted.unique (h : Accepted query) (hbucket : bucket ∈ query.buckets) (hother : other ∈ query.buckets)
    (hwithin : Within bucket event) (hwithin' : Within other event) : bucket = other :=
  eq_of_holds h.ordered hbucket hother hwithin hwithin'

theorem perm_matchingEvents (h : Hierarchy store) (haccepted : Accepted query) (bucket : ComparisonBucket) :
    ((joinedEvents store userId query).filter fun compared => compared.bucket = timestampMillis bucket.start).Perm
        (matchingEvents store userId query bucket) ↔
      ∀ compared, compared ∈ joinedEvents store userId query ∧ compared.bucket = timestampMillis bucket.start ↔
        compared ∈ matchingEvents store userId query bucket := by
  have hjoined : (joinedEvents store userId query).Nodup := (joinedEvents_ids h haccepted).of_map
  have hmatching : (matchingEvents store userId query bucket).Nodup := (labelledEvents_ids h).of_map
  rw [List.perm_ext_iff_of_nodup (hjoined.filter _) hmatching]
  simp only [List.mem_filter, decide_eq_true_eq]

/-- What is labelled as a bucket's is what matches in it, for each of the buckets. -/
theorem apart_iff (h : Hierarchy store) (haccepted : Accepted query) :
    (∀ bucket ∈ query.buckets, ((joinedEvents store userId query).filter fun compared =>
        compared.bucket = timestampMillis bucket.start).Perm (matchingEvents store userId query bucket)) ↔
      (∀ bucket ∈ query.buckets, ∀ event, Passing store userId query event →
        (Within bucket event ↔ Joined bucket event)) ∧
      ∀ bucket ∈ query.buckets, ∀ other ∈ query.buckets,
        timestampMillis bucket.start = timestampMillis other.start → bucket ≠ other →
        ∀ event, Passing store userId query event → ¬ Within bucket event := by
  constructor
  · intro hapart
    have hsame := fun bucket hbucket => (perm_matchingEvents h haccepted bucket).mp (hapart bucket hbucket)
    constructor
    · rintro bucket hbucket event ⟨hevent, howner, device, hdevice, hpasses⟩
      constructor
      · intro hwithin
        have hmatch := (hsame bucket hbucket ⟨timestampMillis bucket.start, event, device⟩).mpr
          (mem_matchingEvents.mpr ⟨rfl, ⟨hevent, howner⟩, hwithin, hdevice, hpasses⟩)
        obtain ⟨other, hother, hlabel, -, hin, -⟩ := (mem_joinedEvents haccepted).mp hmatch.1
        obtain ⟨-, -, hwithin', -⟩ := mem_matchingEvents.mp ((hsame other hother _).mp ⟨hmatch.1, hlabel⟩)
        rw [haccepted.unique hbucket hother hwithin hwithin']
        exact hin
      · intro hin
        have hmem : ⟨timestampMillis bucket.start, event, device⟩ ∈ joinedEvents store userId query :=
          (mem_joinedEvents haccepted).mpr ⟨bucket, hbucket, rfl, ⟨hevent, howner⟩, hin, hdevice, hpasses⟩
        obtain ⟨-, -, hwithin, -⟩ := mem_matchingEvents.mp ((hsame bucket hbucket _).mp ⟨hmem, rfl⟩)
        exact hwithin
    · rintro bucket hbucket other hother hlabel hne event ⟨hevent, howner, device, hdevice, hpasses⟩ hwithin
      have hmatch := (hsame bucket hbucket ⟨timestampMillis bucket.start, event, device⟩).mpr
        (mem_matchingEvents.mpr ⟨rfl, ⟨hevent, howner⟩, hwithin, hdevice, hpasses⟩)
      obtain ⟨-, -, hwithin', -⟩ := mem_matchingEvents.mp ((hsame other hother _).mp ⟨hmatch.1, hlabel⟩)
      exact hne (haccepted.unique hbucket hother hwithin hwithin')
  · rintro ⟨hprecise, hlabelled⟩ bucket hbucket
    apply (perm_matchingEvents h haccepted bucket).mpr
    intro compared
    rw [mem_joinedEvents haccepted, mem_matchingEvents]
    constructor
    · rintro ⟨⟨other, hother, hlabel, hown, hin, hdevice, hpasses⟩, hbucketLabel⟩
      have hpassing : Passing store userId query compared.event := ⟨hown.1, hown.2, compared.device, hdevice, hpasses⟩
      have hwithin := (hprecise other hother compared.event hpassing).mpr hin
      have hsame : other = bucket := by
        by_contra hne
        exact hlabelled other hother bucket hbucket (hlabel.symm.trans hbucketLabel) hne compared.event hpassing hwithin
      rw [← hsame]
      exact ⟨hlabel, hown, hwithin, hdevice, hpasses⟩
    · rintro ⟨hlabel, hown, hwithin, hdevice, hpasses⟩
      have hpassing : Passing store userId query compared.event := ⟨hown.1, hown.2, compared.device, hdevice, hpasses⟩
      exact ⟨⟨bucket, hbucket, hlabel, hown, (hprecise bucket hbucket compared.event hpassing).mp hwithin, hdevice,
        hpasses⟩, hlabel⟩

theorem counted_once (h : Hierarchy store) (haccepted : Accepted query)
    (hprecise : ∀ bucket ∈ query.buckets, ∀ event, Passing store userId query event →
      (Within bucket event ↔ Joined bucket event)) (hpassing : Passing store userId query event)
    {first last : ComparisonBucket} (hfirst : first ∈ query.buckets.head?) (hlast : last ∈ query.buckets.getLast?)
    (hstart : first.start ≤ timestampFromMicros event.observedAt)
    (hend : timestampFromMicros event.observedAt < last.end_) :
    (joinedEvents store userId query).countP (fun compared => compared.event.id == event.id) = 1 := by
  obtain ⟨bucket, hbucket, hwithin⟩ := haccepted.contiguous.covers hfirst hlast hstart hend
  have hin := (hprecise bucket hbucket event hpassing).mp hwithin
  obtain ⟨hevent, howner, device, hdevice, hpasses⟩ := hpassing
  have hmem : ⟨timestampMillis bucket.start, event, device⟩ ∈ joinedEvents store userId query :=
    (mem_joinedEvents haccepted).mpr ⟨bucket, hbucket, rfl, ⟨hevent, howner⟩, hin, hdevice, hpasses⟩
  have hcount := List.count_eq_one_of_mem (joinedEvents_ids h haccepted) (List.mem_map_of_mem hmem)
  rw [List.count, List.countP_map] at hcount
  exact hcount

/-- Buckets of whole milliseconds are told apart whatever the events are. -/
theorem Accepted.apart_of_millis (h : Accepted query)
    (hmillis : ∀ bucket ∈ query.buckets, 1000000 ∣ bucket.start ∧ 1000000 ∣ bucket.end_) :
    (∀ bucket ∈ query.buckets, ∀ event, Passing store userId query event →
      (Within bucket event ↔ Joined bucket event)) ∧
    ∀ bucket ∈ query.buckets, ∀ other ∈ query.buckets,
      timestampMillis bucket.start = timestampMillis other.start → bucket ≠ other →
      ∀ event, Passing store userId query event → ¬ Within bucket event := by
  constructor
  · intro bucket hbucket event _
    obtain ⟨⟨start, hstart⟩, finish, hfinish⟩ := hmillis bucket hbucket
    have hmicros : ∀ time observedAt : ℤ, 1000000 * time ≤ observedAt * 1000 ↔ 1000000 * time / 1000 ≤ observedAt := by
      intro time observedAt
      omega
    rw [Within, Joined, hstart, hfinish, ← not_le, ← not_le]
    exact and_congr (hmicros start _) (not_congr (hmicros finish _))
  · intro bucket hbucket other hother hlabel hne
    obtain ⟨⟨start, hstart⟩, -⟩ := hmillis bucket hbucket
    obtain ⟨⟨start', hstart'⟩, -⟩ := hmillis other hother
    have hsame : bucket.start = other.start := by
      rw [timestampMillis, timestampMillis, hstart, hstart', Int.mul_ediv_cancel_left _ (by decide),
        Int.mul_ediv_cancel_left _ (by decide)] at hlabel
      rw [hstart, hstart', hlabel]
    have hholds : Intervals.Holds ComparisonBucket.start ComparisonBucket.end_ bucket bucket.start :=
      ⟨le_refl _, h.forward bucket hbucket⟩
    have hholds' : Intervals.Holds ComparisonBucket.start ComparisonBucket.end_ other bucket.start :=
      ⟨hsame.ge, hsame ▸ h.forward other hother⟩
    exact absurd (eq_of_holds h.ordered hbucket hother hholds hholds') hne

variable [Sha256] [CaseMapping] [Base64]

/-- A comparison keeps its buckets apart exactly where microseconds put the matching events in them, no event is in a
bucket that starts in one millisecond with another, and the totals fit. -/
theorem Reachable.keeps_apart_iff (h : Reachable store) (hvalid : query.validate = .ok ()) :
    KeepsApart store userId query ↔ Separable store userId query := by
  have hhierarchy := h.sound.hierarchy
  have haccepted := accepted_of_validate hvalid
  have hcounters := h.counters
  constructor
  · rintro ⟨response, hok, hcounts⟩
    have hperm : ∀ bucket ∈ query.buckets, ((joinedEvents store userId query).filter fun compared =>
        compared.bucket = timestampMillis bucket.start).Perm (matchingEvents store userId query bucket) :=
      fun bucket hbucket => (labelledRows_perm hvalid hcounters hok _).symm.trans (hcounts.apart bucket hbucket)
    obtain ⟨hprecise, hlabelled⟩ := (apart_iff hhierarchy haccepted).mp hperm
    refine ⟨hprecise, hlabelled, fun bucket hbucket value => ?_⟩
    have hfits := (compare_ok_iff hvalid hcounters).mp ⟨response, hok⟩ (timestampMillis bucket.start) value
    rw [← filter_label_value] at hfits
    rw [← (((hperm bucket hbucket).filter _).map _).sum_eq]
    exact hfits
  · intro hseparable
    have hperm := (apart_iff hhierarchy haccepted).mpr ⟨hseparable.precise, hseparable.labelled⟩
    have hfits : ∀ label value, (((joinedEvents store userId query).filter fun compared =>
        compared.bucket = label ∧ comparedValue query.groupBy compared = value).map
          fun compared => compared.event.totalTokens).sum ≤ i64Max := by
      intro label value
      rw [← filter_label_value]
      by_cases hlabel : ∃ bucket ∈ query.buckets, timestampMillis bucket.start = label
      · obtain ⟨bucket, hbucket, rfl⟩ := hlabel
        rw [(((hperm bucket hbucket).filter _).map _).sum_eq]
        exact hseparable.fits bucket hbucket value
      · have hnone : ((joinedEvents store userId query).filter fun compared => compared.bucket = label) = [] := by
          apply List.filter_eq_nil_iff.mpr
          intro compared hcompared hsame
          obtain ⟨bucket, hbucket, hof, -⟩ := (mem_joinedEvents haccepted).mp hcompared
          exact hlabel ⟨bucket, hbucket, hof.symm.trans (decide_eq_true_eq.mp hsame)⟩
        rw [hnone, List.filter_nil, List.map_nil, List.sum_nil]
        exact Int.le_of_lt (by decide)
    obtain ⟨response, hok⟩ := (compare_ok_iff hvalid hcounters).mpr hfits
    refine ⟨response, hok, (compare_rows hvalid hcounters hok).2, ?_, fun bucket hbucket => ?_⟩
    · intro event hpassing first hfirst last hlast hstart hend
      rw [(rows_perm hvalid hcounters hok).countP_eq]
      exact counted_once hhierarchy haccepted hseparable.precise hpassing hfirst hlast hstart hend
    · exact (labelledRows_perm hvalid hcounters hok _).trans (hperm bucket hbucket)

end Apart

section HalfMillis

open Fixtures

local instance comparedDigest : Sha256 := cargoDigest

local instance comparedContent : Base64 := noContent

local instance comparedCase : CaseMapping := asciiCase

def comparison (buckets : List ComparisonBucket) : ComparisonQuery := { groupBy := none, buckets, filters := {} }

def wholeSeconds : ComparisonQuery := comparison [⟨1000000000, 2000000000⟩, ⟨2000000000, 3000000000⟩]

set_option maxRecDepth 4000 in
theorem Reachable.keeps_apart_seconds : KeepsApart batchStore 1 wholeSeconds := by
  have hreachable : Reachable batchStore := .ingest (.start [1]) batch 1 10 (draws 100)
  have hvalid : wholeSeconds.validate = .ok () := rfl
  obtain ⟨hprecise, hlabelled⟩ := @Accepted.apart_of_millis batchStore 1 _ (accepted_of_validate hvalid) (by decide)
  apply (Reachable.keeps_apart_iff hreachable hvalid).mpr
  refine ⟨hprecise, hlabelled, fun bucket hbucket value => ?_⟩
  have htokens : ∀ compared ∈ matchingEvents batchStore 1 wholeSeconds bucket, compared.event.totalTokens = 0 := by
    intro compared hcompared
    have hevents : ∀ event ∈ batchStore.events, event.totalTokens = 0 := by decide
    exact hevents compared.event (mem_matchingEvents.mp hcompared).2.1.1
  rw [List.sum_eq_zero]
  · exact Int.le_of_lt (by decide)
  · intro total htotal
    obtain ⟨compared, hcompared, rfl⟩ := List.mem_map.mp htotal
    exact htokens compared (List.mem_filter.mp hcompared).1

/-- Two requests of one millisecond. -/
def twoRequests : IngestEventsRequest where
  events := [Fixtures.event "e1" 1 .request [], { Fixtures.event "e2" 1 .request [] with observedAt := 1000500000 }]
  diagnosticCaptures := []

def twoRequestsStore : Store := afterIngest twoRequests 1 10 (draws 100) emptyStore

/-- Two buckets of half a millisecond each. -/
def halfMillis : ComparisonQuery := comparison [⟨1000000000, 1000500000⟩, ⟨1000500000, 1001000000⟩]

set_option maxRecDepth 4000 in
/-- The two buckets, with a request in each, come out as one row. -/
theorem halfMillis_merged : Reachable twoRequestsStore ∧ halfMillis.validate = .ok () ∧
    (∃ response, compare twoRequestsStore 1 halfMillis = .ok response ∧ response.rows = [⟨1000, "all", 0, 2⟩]) ∧
    ¬ KeepsApart twoRequestsStore 1 halfMillis := by
  have hreachable : Reachable twoRequestsStore := .ingest (.start [1]) twoRequests 1 10 (draws 100)
  have hvalid : halfMillis.validate = .ok () := rfl
  refine ⟨hreachable, hvalid, ⟨_, rfl, by decide⟩, ?_⟩
  rintro ⟨response, hok, hcounts⟩
  have hfirst := hcounts.apart ⟨1000000000, 1000500000⟩ (by decide)
  have hlabelled := labelledRows_perm hvalid hreachable.counters hok (timestampMillis 1000000000)
  have hlength := (hlabelled.symm.trans hfirst).length_eq
  have hdiffers : ((joinedEvents twoRequestsStore 1 halfMillis).filter fun compared =>
      compared.bucket = timestampMillis 1000000000).length = 2 ∧
    (matchingEvents twoRequestsStore 1 halfMillis ⟨1000000000, 1000500000⟩).length = 1 := by decide
  omega

end HalfMillis

end AbyssBackend.Storage
