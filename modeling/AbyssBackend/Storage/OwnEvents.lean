import AbyssBackend.Storage.Events
import AbyssBackend.Storage.Owners

namespace AbyssBackend.Storage

open Attempts Search Sorting Streams Tables Text

section Owner

variable [Sha256] [CaseMapping] {store : Store} {owner : Uuid} {event : EventRow}

omit [Sha256] [CaseMapping] in
theorem Hierarchy.device_owner (h : Hierarchy store) (hevent : event ∈ store.events) {device : DeviceRow}
    (hdevice : device ∈ store.devices) (hid : device.id = event.deviceContextId) : device.userId = event.userId := by
  obtain ⟨device', hdevice', hon⟩ := h.devices event hevent
  obtain rfl := List.inj_on_of_nodup_map h.deviceIds hdevice hdevice' (hid.trans hon.id.symm)
  exact hon.userId

theorem Sound.attachment_owner (h : Sound store) (hevent : event ∈ store.events) {row : AttachmentRow}
    (hrow : row ∈ store.attachments) (hof : row.eventPk = event.id) : row.userId = event.userId := by
  obtain ⟨event', hevent', hid, howner⟩ := h.attachments row hrow
  obtain rfl := List.inj_on_of_nodup_map h.hierarchy.eventPks hevent hevent' (hof.symm.trans hid.symm)
  exact howner.symm

end Owner

/-- The events are rows of the owner, with or without their content. -/
def OwnRows (owner : Uuid) (store : Store) (events : List EventRow) : Prop :=
  ∀ event ∈ events, ∃ row ∈ store.events, row.userId = owner ∧ row.id = event.id ∧
    row.deviceContextId = event.deviceContextId

variable [Sha256] [CaseMapping]

namespace Agree

variable {owner sessionPk : Uuid} {store store' : Store} {event : EventRow} {events events' : List EventRow}

section Responses

omit [Sha256] [CaseMapping] in
theorem contains_perm {α : Type} [BEq α] [LawfulBEq α] {xs ys : List α} (h : xs.Perm ys) (x : α) :
    xs.contains x = ys.contains x := by
  rw [Bool.eq_iff_iff, List.contains_iff_mem, List.contains_iff_mem]
  exact h.mem_iff

theorem ownRows (h : Agree owner store store') (hown : OwnRows owner store events) (hperm : events.Perm events') :
    OwnRows owner store' events' := by
  intro event hevent
  obtain ⟨row, hrow, howner, hsame⟩ := hown event (hperm.mem_iff.mpr hevent)
  exact ⟨row, h.mem_events hrow howner, howner, hsame⟩

theorem loadDeviceContexts (h : Agree owner store store') (hown : OwnRows owner store events)
    (hperm : events.Perm events') :
    loadDeviceContexts store events = Storage.loadDeviceContexts store' events' := by
  have howner : ∀ {store : Store} {events : List EventRow}, Hierarchy store → OwnRows owner store events →
      ∀ device ∈ store.devices, (events.map EventRow.deviceContextId).contains device.id = true →
        (device.userId == owner) = true := by
    intro store events hierarchy hown device hdevice hcontains
    obtain ⟨event, hevent, hid⟩ := List.mem_map.mp (List.contains_iff_mem.mp hcontains)
    obtain ⟨row, hrow, hrowOwner, -, hcontext⟩ := hown event hevent
    rw [beq_iff_eq, ← hrowOwner]
    exact hierarchy.device_owner hrow hdevice (hid.symm.trans hcontext.symm)
  apply ofPairs_perm
  · apply List.Perm.map
    exact Rows.filter_perm_of h.rows.devices (howner h.sound.hierarchy hown)
      (howner h.sound'.hierarchy (h.ownRows hown hperm)) fun device _ _ => contains_perm (hperm.map _) device.id
  · intro id device device' hdevice hdevice'
    obtain ⟨row, hrow, heq⟩ := List.mem_map.mp hdevice
    obtain ⟨row', hrow', heq'⟩ := List.mem_map.mp hdevice'
    obtain ⟨rfl, rfl⟩ := Prod.mk.inj heq
    obtain ⟨hid, rfl⟩ := Prod.mk.inj heq'
    exact List.inj_on_of_nodup_map h.sound.hierarchy.deviceIds (List.mem_filter.mp hrow').1
      (List.mem_filter.mp hrow).1 hid

theorem loadDeclaredIds (h : Agree owner store store') (hown : OwnRows owner store events)
    (hperm : events.Perm events') :
    loadDeclaredIds store events = Storage.loadDeclaredIds store' events' := by
  have howns : ∀ {store : Store} {events : List EventRow}, OwnRows owner store events →
      ∀ row ∈ store.streamFacts, (events.map EventRow.id).contains row.eventPk = true →
        store.ownsEvent owner row.eventPk = true := by
    intro store events hown row _ hcontains
    obtain ⟨event, hevent, hid⟩ := List.mem_map.mp (List.contains_iff_mem.mp hcontains)
    obtain ⟨own, hmem, howner, hsame, -⟩ := hown event hevent
    exact List.any_eq_true.mpr ⟨own, hmem, by simp [howner, hsame, hid]⟩
  have hkeys := factsOf_pks h.sound.streamFacts ▸ h.sound.hierarchy.eventPks
  apply ofPairs_perm
  · apply List.Perm.map
    exact Rows.filter_perm_of h.rows.streamFacts (howns hown) (howns (h.ownRows hown hperm)) fun row _ _ =>
      contains_perm (hperm.map _) row.eventPk
  · intro id declared declared' hdeclared hdeclared'
    obtain ⟨row, hrow, heq⟩ := List.mem_map.mp hdeclared
    obtain ⟨row', hrow', heq'⟩ := List.mem_map.mp hdeclared'
    obtain ⟨rfl, rfl⟩ := Prod.mk.inj heq
    obtain ⟨hid, rfl⟩ := Prod.mk.inj heq'
    rw [List.inj_on_of_nodup_map hkeys (List.mem_filter.mp hrow').1 (List.mem_filter.mp hrow).1 hid]

theorem loadAttachments (h : Agree owner store store') (hown : OwnRows owner store events)
    (hperm : events.Perm events') :
    loadAttachments store events = Storage.loadAttachments store' events' := by
  have howner : ∀ {store : Store} {events : List EventRow}, Sound store → OwnRows owner store events →
      ∀ row ∈ store.attachments, (events.map EventRow.id).contains row.eventPk = true →
        (row.userId == owner) = true := by
    intro store events hsound hown row hrow hcontains
    obtain ⟨event, hevent, hid⟩ := List.mem_map.mp (List.contains_iff_mem.mp hcontains)
    obtain ⟨own, hmem, hownOwner, hsame, -⟩ := hown event hevent
    rw [beq_iff_eq, ← hownOwner]
    exact hsound.attachment_owner hmem hrow (hid.symm.trans hsame.symm)
  have hsorted : sortBy AttachmentRow.order (store.attachments.filter fun row =>
      (events.map EventRow.id).contains row.eventPk) = sortBy AttachmentRow.order (store'.attachments.filter fun row =>
        (events'.map EventRow.id).contains row.eventPk) := by
    apply sortBy_congr
    · exact Rows.filter_perm_of h.rows.attachments (howner h.sound hown)
        (howner h.sound' (h.ownRows hown hperm)) fun row _ _ => contains_perm (hperm.map _) row.eventPk
    · intro x hx y hy hsame
      have hplace : x.place = y.place := toLex_inj.mp hsame
      exact List.inj_on_of_nodup_map h.apart'.places (List.mem_filter.mp hx).1 (List.mem_filter.mp hy).1 hplace
  unfold Storage.loadAttachments
  rw [hsorted]

theorem eventResponses (h : Agree owner store store') (hown : OwnRows owner store events)
    (hperm : events.Perm events') (includeContent : Bool) :
    ∃ respond : EventRow → UsageEventResponse, (∀ event, (respond event).id = event.id) ∧
      eventResponses store events includeContent = events.map respond ∧
      Storage.eventResponses store' events' includeContent = events'.map respond := by
  have hdevices := h.loadDeviceContexts hown hperm
  have hdeclared := h.loadDeclaredIds hown hperm
  have hattachments := h.loadAttachments hown hperm
  refine ⟨_, fun event => ?_, rfl, ?_⟩
  · rfl
  · simp only [Storage.eventResponses, hdevices, hdeclared, hattachments]

end Responses

section Reads

theorem loadFilteredEvents (h : Agree owner store store') (filters : EventFilters) (howner : filters.userId = owner)
    (includeContent : Bool) :
    Alike (fun events events' => events = events' ∧ OwnRows owner store events)
      (loadFilteredEvents store filters includeContent) (Storage.loadFilteredEvents store' filters includeContent) := by
  apply (alike_eq.mpr rfl).bind
  rintro eventType _ rfl
  have hown : ∀ event, filters.admits eventType event = true → event.userId = owner := by
    intro event hadmits
    simp only [EventFilters.admits, Bool.and_eq_true] at hadmits
    exact beq_iff_eq.mp (howner ▸ hadmits.1.1.1.1.1.1.1.1)
  have hsorted : sortBy newestFirst (store.events.filter (filters.admits eventType)) =
      sortBy newestFirst (store'.events.filter (filters.admits eventType)) := by
    apply sortBy_congr
    · exact h.ownEvents hown
    · intro x hx y hy hsame
      have hid : x.id = y.id := OrderDual.toDual_inj.mp (congrArg (fun order => (ofLex (ofLex order).2).2) hsame)
      exact List.inj_on_of_nodup_map h.sound'.hierarchy.eventPks (List.mem_filter.mp hx).1
        (List.mem_filter.mp hy).1 hid
  have hrows : ∀ event ∈ page filters.offset filters.limit.toNat
      (sortBy newestFirst (store.events.filter (filters.admits eventType))),
      event ∈ store.events ∧ event.userId = owner := by
    intro event hevent
    have hpage := List.mem_of_mem_drop (List.mem_of_mem_take hevent)
    obtain ⟨hmem, hadmits⟩ := List.mem_filter.mp (mem_sortBy.mp hpage)
    exact ⟨hmem, hown event hadmits⟩
  rw [← hsorted]
  refine .ok ⟨rfl, fun event hevent => ?_⟩
  cases includeContent with
  | true =>
    obtain ⟨hmem, hevent⟩ := hrows event hevent
    exact ⟨event, hmem, hevent, rfl, rfl⟩
  | false =>
    obtain ⟨row, hrow, rfl⟩ := List.mem_map.mp hevent
    obtain ⟨hmem, hevent⟩ := hrows row hrow
    exact ⟨row, hmem, hevent, rfl, rfl⟩

theorem eventResponses_eq (h : Agree owner store store') (hown : OwnRows owner store events) (includeContent : Bool) :
    Storage.eventResponses store events includeContent = Storage.eventResponses store' events includeContent := by
  obtain ⟨respond, -, hresponses, hresponses'⟩ := h.eventResponses hown (.refl events) includeContent
  rw [hresponses, hresponses']

theorem rawEvents (h : Agree owner store store') (query : RawEventsQuery) (defaultLimit : ℤ) :
    rawEvents store owner query defaultLimit = Storage.rawEvents store' owner query defaultLimit := by
  apply (h.loadFilteredEvents _ rfl _).bind_eq
  rintro events _ ⟨rfl, hown⟩
  have htaken : OwnRows owner store
      (if events.length > (normalizeLimit query.limit defaultLimit 1000).toNat then
        events.take (normalizeLimit query.limit defaultLimit 1000).toNat else events) := by
    split
    · exact fun event hevent => hown event (List.mem_of_mem_take hevent)
    · exact hown
  have hresponses := h.eventResponses_eq htaken query.includesContent
  simp only [hresponses]

/-- At most one event has a key, and it is the owner's in both stores or in none. -/
theorem findEvent (h : Agree owner store store') {p : EventRow → Bool} {eventPk : Uuid}
    (hp : ∀ event, p event = true ↔ event.userId = owner ∧ event.id = eventPk) :
    store.events.find? p = store'.events.find? p := by
  apply Rows.find?_congr (Rows.eq_of_perm ?_ ?_)
  · exact h.ownEvents fun event hboth => ((hp event).mp hboth).1
  · apply Rows.filter_length_le_one h.sound.hierarchy.eventPks
    exact fun event _ hboth => ((hp event).mp hboth).2

theorem usageEvent (h : Agree owner store store') (eventPk : Uuid) : usageEvent store owner eventPk =
    Storage.usageEvent store' owner eventPk := by
  have hp : ∀ event : EventRow, (event.id == eventPk && event.userId == owner) = true ↔
      event.userId = owner ∧ event.id = eventPk := by
    intro event
    simp [and_comm]
  unfold Storage.usageEvent
  rw [← h.findEvent hp]
  split
  · rfl
  · next event hfound =>
    have hmem := List.mem_of_find?_eq_some hfound
    have hfoundEvent := List.find?_some hfound
    have hboth := (hp event).mp hfoundEvent
    have hown : OwnRows owner store [event] := by
      intro other hother
      rw [List.mem_singleton.mp hother]
      exact ⟨event, hmem, hboth.1, rfl, rfl⟩
    rw [h.eventResponses_eq hown]

theorem imageAttachment (h : Agree owner store store') (attachmentId : Uuid) :
    imageAttachment store owner attachmentId = Storage.imageAttachment store' owner attachmentId := by
  have hfind : (store.attachments.find? fun row => row.id == attachmentId && row.userId == owner) =
      store'.attachments.find? fun row => row.id == attachmentId && row.userId == owner := by
    apply Rows.find?_congr (Rows.eq_of_perm ?_ ?_)
    · apply Rows.filter_perm_of h.rows.attachments ?_ ?_ fun _ _ _ => rfl
      all_goals exact fun row _ hboth => (Bool.and_eq_true_iff.mp hboth).2
    · apply Rows.filter_length_le_one h.apart.ids
      exact fun row _ hboth => beq_iff_eq.mp (Bool.and_eq_true_iff.mp hboth).1
  unfold Storage.imageAttachment
  rw [hfind]

theorem sessionStreams (h : Agree owner store store') (sessionPk : Uuid) :
    sessionStreams store owner sessionPk = Storage.sessionStreams store' owner sessionPk := by
  unfold Storage.sessionStreams
  rw [h.sessionStructure]

theorem sessionTurns (h : Agree owner store store') (sessionPk : Uuid) :
    sessionTurns store owner sessionPk = Storage.sessionTurns store' owner sessionPk := by
  unfold Storage.sessionTurns
  rw [h.sessionStructure]

theorem eventLocation (h : Agree owner store store') (eventPk : Uuid) :
    eventLocation store owner eventPk = Storage.eventLocation store' owner eventPk := by
  have hp : ∀ event : EventRow, (event.userId == owner && event.id == eventPk) = true ↔
      event.userId = owner ∧ event.id = eventPk := by
    intro event
    simp
  unfold Storage.eventLocation
  rw [← h.findEvent hp]
  split
  · rfl
  · next event hfound => rw [h.sessionStructure]

theorem usageEvents (h : Agree owner store store') (pks : List Uuid) : usageEvents store owner pks =
    Storage.usageEvents store' owner pks := by
  have hperm : (store.events.filter fun event => pks.contains event.id && event.userId == owner).Perm
      (store'.events.filter fun event => pks.contains event.id && event.userId == owner) :=
    h.ownEvents fun event hboth => beq_iff_eq.mp (Bool.and_eq_true_iff.mp hboth).2
  have hown : OwnRows owner store
      (store.events.filter fun event => pks.contains event.id && event.userId == owner) := by
    intro event hevent
    obtain ⟨hmem, hboth⟩ := List.mem_filter.mp hevent
    exact ⟨event, hmem, beq_iff_eq.mp (Bool.and_eq_true_iff.mp hboth).2, rfl, rfl⟩
  obtain ⟨respond, hid, hresponses, hresponses'⟩ := h.eventResponses hown hperm true
  unfold Storage.usageEvents
  rw [hresponses, hresponses', List.map_map, List.map_map]
  apply ofPairs_perm (hperm.map _)
  intro k v w hv hw
  obtain ⟨event, hevent, heq⟩ := List.mem_map.mp hv
  obtain ⟨event', hevent', heq'⟩ := List.mem_map.mp hw
  obtain ⟨rfl, rfl⟩ := Prod.mk.inj heq
  obtain ⟨hsame, rfl⟩ := Prod.mk.inj heq'
  have hids : event'.id = event.id := (hid event').symm.trans (hsame.trans (hid event))
  rw [List.inj_on_of_nodup_map h.sound.hierarchy.eventPks (List.mem_filter.mp hevent').1
    (List.mem_filter.mp hevent).1 hids]

theorem sessionSegment (h : Agree owner store store') (sessionPk : Uuid) (head : String) (window : Window) :
    sessionSegment store owner sessionPk head window =
      Storage.sessionSegment store' owner sessionPk head window := by
  have hevents : Storage.usageEvents store owner = Storage.usageEvents store' owner := funext h.usageEvents
  unfold Storage.sessionSegment
  rw [h.sessionStructure, hevents]

end Reads

end Agree

end AbyssBackend.Storage
