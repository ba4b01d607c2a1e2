import AbyssBackend.Storage.Owners
import AbyssBackend.Storage.SessionList
import AbyssBackend.Usage.TokenTotals

namespace AbyssBackend

open Sorting

section Header

variable {events events' : List HeaderEvent}

theorem distinct_perm {values values' : List String} (h : values.Perm values') : distinct values = distinct values' :=
    by
  have hids : ∀ x ∈ values', ∀ y ∈ values', id x = id y → x = y := fun _ _ _ _ hsame => hsame
  unfold distinct
  rw [sortBy_congr h hids]

theorem distinctAgents_perm {agents agents' : List HeaderAgent} (h : agents.Perm agents') :
    distinctAgents agents = distinctAgents agents' := by
  unfold distinctAgents
  rw [sortBy_congr h]
  rintro ⟨name, version⟩ - ⟨name', version'⟩ - hsame
  obtain ⟨rfl, rfl⟩ := Prod.mk.inj (toLex_inj.mp hsame)
  rfl

/-- The order of a session's events does not show in its header. -/
theorem sessionHeader_perm (h : events.Perm events') (hids : ∀ x ∈ events', ∀ y ∈ events', x.sessionId = y.sessionId)
    (hnonneg : ∀ event ∈ events, event.tokens.Nonneg) (sessionPk : Uuid) (summary : Streams.StreamSummary)
    (title : Option Streams.EntryLabel) :
    sessionHeader sessionPk events summary title = sessionHeader sessionPk events' summary title := by
  have htimes : ∀ time, time ∈ events.map HeaderEvent.observedAt ↔ time ∈ events'.map HeaderEvent.observedAt :=
    fun time => (h.map HeaderEvent.observedAt).mem_iff
  have htokens : ∀ count ∈ events.map HeaderEvent.tokens, count.Nonneg := by
    intro count hcount
    obtain ⟨event, hevent, rfl⟩ := List.mem_map.mp hcount
    exact hnonneg event hevent
  unfold sessionHeader
  rw [head_congr h hids, distinctAgents_perm (h.map _), min?_congr htimes, max?_congr htimes, h.length_eq,
    TokenCounts.foldl_add_perm (h.map _) htokens, distinct_perm (h.map HeaderEvent.provider),
    distinct_perm (h.map HeaderEvent.model)]

end Header

namespace Storage

open Attempts Search Streams Text

section Rows

variable {store : Store} {session : SessionRow} {device : DeviceRow} {userId : Uuid} {query : ValidatedSessionListQuery}

theorem activityRow_sessionPk {row : SessionListRow} (h : activityRow store session device = .ok row) :
    row.sessionPk = session.id := by
  obtain ⟨totalTokens, -, hrow⟩ := bind_eq_ok.mp h
  cases hrow
  rfl

theorem activityRow_error (hcounters : CountersKept store) {error : AppError}
    (h : activityRow store session device = .error error) : error = .database .overflow := by
  obtain ⟨-, row, hrow, -⟩ | ⟨-, hoverflow⟩ := activityRow_eq hcounters session device
  · rw [hrow] at h
    cases h
  · rw [hoverflow] at h
    cases h
    rfl

theorem activeSessions_pks (h : Hierarchy store) :
    ((activeSessions store userId query).map fun pair => pair.1.id).Nodup := by
  have hpks : (store.sessions.map SessionRow.id).Nodup := h.sessionIds
  rw [List.Nodup, List.pairwise_map] at hpks ⊢
  refine (hpks.filter _).filterMap _ fun x y hne pair hpair pair' hpair' => ?_
  obtain ⟨_, -, rfl⟩ := Option.map_eq_some_iff.mp hpair
  obtain ⟨_, -, rfl⟩ := Option.map_eq_some_iff.mp hpair'
  exact hne

theorem filtered_pks (h : Hierarchy store) {rows : List SessionListRow}
    (hrows : filtered store userId query = .ok rows) :
    (rows.map SessionListRow.sessionPk).Nodup := by
  obtain ⟨activity, hactivity, hfilter⟩ := bind_eq_ok.mp hrows
  cases hfilter
  have hactive : ((activeSessions store userId query).map fun pair => pair.1.id).Nodup := activeSessions_pks h
  have hpks : (activeSessions store userId query).map (fun pair => pair.1.id) =
      activity.map SessionListRow.sessionPk :=
    Rows.forall₂_map_eq (mapM_ok hactivity) fun _ _ _ _ hrow => (activityRow_sessionPk hrow).symm
  rw [hpks] at hactive
  exact hactive.sublist (List.filter_sublist.map _)

end Rows

variable [Sha256] [CaseMapping]

namespace Agree

variable {owner sessionPk : Uuid} {store store' : Store}

theorem sessionHeader (h : Agree owner store store') (sessionPk : Uuid) :
    sessionHeader store owner sessionPk = Storage.sessionHeader store' owner sessionPk := by
  unfold Storage.sessionHeader
  rw [← h.hasOwnSession, ← h.sessionStructure]
  cases hown : Storage.hasOwnSession store owner sessionPk with
  | false => rfl
  | true =>
    have hevents := h.eventsOf hown
    have hids : ∀ x ∈ (Storage.eventsOf store' sessionPk).map headerEvent,
        ∀ y ∈ (Storage.eventsOf store' sessionPk).map headerEvent, x.sessionId = y.sessionId := by
      intro x hx y hy
      obtain ⟨event, hevent, rfl⟩ := List.mem_map.mp hx
      obtain ⟨event', hevent', rfl⟩ := List.mem_map.mp hy
      obtain ⟨hevent, hof⟩ := mem_eventsOf.mp hevent
      obtain ⟨hevent', hof'⟩ := mem_eventsOf.mp hevent'
      exact h.sound'.hierarchy.same_sessionId hevent hevent' (hof.trans hof'.symm)
    have hnonneg : ∀ event ∈ (Storage.eventsOf store sessionPk).map headerEvent, event.tokens.Nonneg := by
      intro event hevent
      obtain ⟨row, hrow, rfl⟩ := List.mem_map.mp hevent
      exact h.counters row (mem_eventsOf.mp hrow).1
    have hempty : (Storage.eventsOf store sessionPk).isEmpty = (Storage.eventsOf store' sessionPk).isEmpty := by
      rw [Bool.eq_iff_iff, List.isEmpty_iff, List.isEmpty_iff]
      exact ⟨fun hnil => (hnil ▸ hevents).nil_eq.symm, fun hnil => (hnil ▸ hevents).eq_nil⟩
    rw [hempty, h.title hown]
    have hheader := fun summary => sessionHeader_perm (hevents.map headerEvent) hids hnonneg sessionPk summary
      (Storage.title store' sessionPk)
    simp only [hheader]

section List

variable {session : SessionRow}

theorem activityRow (h : Agree owner store store') (hsession : session ∈ store.sessions)
    (howner : session.userId = owner) (device : DeviceRow) :
    activityRow store session device = Storage.activityRow store' session device := by
  have hown := hasOwnSession_of_mem hsession howner
  have hevents := h.eventsOf hown
  have hnonneg : ∀ value ∈ (Storage.eventsOf store session.id).map EventRow.totalTokens, 0 ≤ value := by
    intro value hvalue
    obtain ⟨event, hevent, rfl⟩ := List.mem_map.mp hvalue
    exact (TokenCounts.forall_columns.mp (h.counters event (mem_eventsOf.mp hevent).1)).2.2.2.2.2
  have htimes : ∀ time, time ∈ (Storage.eventsOf store session.id).map EventRow.observedAt ↔
      time ∈ (Storage.eventsOf store' session.id).map EventRow.observedAt :=
    fun time => (hevents.map EventRow.observedAt).mem_iff
  unfold Storage.activityRow
  rw [sqliteSum_perm (hevents.map _) hnonneg, max?_congr htimes, hevents.length_eq, h.title hown]

theorem activeSessions (h : Agree owner store store') (query : ValidatedSessionListQuery) :
    (activeSessions store owner query).Perm (Storage.activeSessions store' owner query) := by
  have hsessions : (store.sessions.filter fun session => session.userId == owner &&
      (query.agentNames.isEmpty || query.agentNames.contains session.agentName) &&
      (query.llmProviders.isEmpty || (Storage.eventsOf store session.id).any fun event =>
        query.llmProviders.contains event.llmProvider) &&
      (query.llmModels.isEmpty || (Storage.eventsOf store session.id).any fun event =>
        query.llmModels.contains event.llmModel)).Perm (store'.sessions.filter fun session => session.userId == owner &&
      (query.agentNames.isEmpty || query.agentNames.contains session.agentName) &&
      (query.llmProviders.isEmpty || (Storage.eventsOf store' session.id).any fun event =>
        query.llmProviders.contains event.llmProvider) &&
      (query.llmModels.isEmpty || (Storage.eventsOf store' session.id).any fun event =>
        query.llmModels.contains event.llmModel)) := by
    apply Rows.filter_perm_of h.rows.sessions
    · exact fun session _ hall => by simp only [Bool.and_eq_true] at hall; exact hall.1.1.1
    · exact fun session _ hall => by simp only [Bool.and_eq_true] at hall; exact hall.1.1.1
    · intro session hsession howner
      have hany : ∀ p : EventRow → Bool, (Storage.eventsOf store session.id).any p =
          (Storage.eventsOf store' session.id).any p :=
        fun p => Rows.any_perm ((h.eventsOf (hasOwnSession_of_mem hsession (beq_iff_eq.mp howner))).filter p)
      simp only [hany]
  unfold Storage.activeSessions
  refine (List.Perm.of_eq ?_).trans (hsessions.filterMap _)
  apply List.filterMap_congr
  intro session hsession
  obtain ⟨hmem, hall⟩ := List.mem_filter.mp hsession
  simp only [Bool.and_eq_true, beq_iff_eq] at hall
  obtain ⟨device, hdevice, hid, howner⟩ := h.sound.hierarchy.sessionDevices session hmem
  have hfind : Rows.find DeviceRow.id session.deviceContextId store.devices =
      Rows.find DeviceRow.id session.deviceContextId store'.devices :=
    Rows.find?_congr (h.devices hdevice (howner.trans hall.1.1.1) fun other => by rw [decide_eq_true_iff, hid])
  rw [hfind]

theorem filtered (h : Agree owner store store') (query : ValidatedSessionListQuery) : Alike List.Perm
    (filtered store owner query)
    (Storage.filtered store' owner query) := by
  have hrows : (Storage.activeSessions store' owner query).mapM (fun pair =>
      Storage.activityRow store pair.1 pair.2) = (Storage.activeSessions store' owner query).mapM
        fun pair => Storage.activityRow store' pair.1 pair.2 := by
    have hsame : List.Forall₂ Eq (Storage.activeSessions store' owner query)
        (Storage.activeSessions store' owner query) :=
      List.forall₂_same.mpr fun _ _ => rfl
    apply mapM_congr hsame
    rintro ⟨session, device⟩ hpair _ - rfl
    obtain ⟨hmem, howner⟩ := mem_activeSessions ((h.activeSessions query).mem_iff.mpr hpair)
    exact h.activityRow hmem howner device
  unfold Storage.filtered
  change Alike List.Perm (_ >>= _) ((Storage.activeSessions store' owner query).mapM (fun pair =>
    Storage.activityRow store' pair.1 pair.2) >>= _)
  rw [← hrows]
  apply (mapM_perm (h.activeSessions query) fun pair _ e herror => activityRow_error h.counters herror).bind
  exact fun rows rows' hperm => .ok (hperm.filter _)

theorem listSessions (h : Agree owner store store') (query : ValidatedSessionListQuery) :
    listSessions store owner query = Storage.listSessions store' owner query := by
  have hstructure : Storage.sessionStructure store owner = Storage.sessionStructure store' owner :=
    funext h.sessionStructure
  have hfiltered : Alike (fun rows rows' => sortBy latestFirst rows = sortBy latestFirst rows' ∧
      rows.length = rows'.length) (Storage.filtered store owner query) (Storage.filtered store' owner query) := by
    refine (h.filtered query).mono_ok fun rows rows' _ hrows' hperm => ⟨?_, hperm.length_eq⟩
    apply sortBy_congr hperm
    intro x hx y hy hsame
    have hpk : x.sessionPk = y.sessionPk := congrArg (fun order => (ofLex (OrderDual.ofDual order)).2) hsame
    exact List.inj_on_of_nodup_map (filtered_pks h.sound'.hierarchy hrows') hx hy hpk
  unfold Storage.listSessions
  rw [hstructure]
  apply hfiltered.bind_eq
  rintro rows rows' ⟨hsorted, hlength⟩
  simp only [hsorted, hlength]

end List

end Agree

end Storage

end AbyssBackend
