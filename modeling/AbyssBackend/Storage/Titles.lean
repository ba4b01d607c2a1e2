import AbyssBackend.Storage.Hierarchy

namespace AbyssBackend.Storage

theorem registeredLe_iff {x y : ℤ × Uuid} :
    registeredLe x y = true ↔ x.1 < y.1 ∨ (x.1 = y.1 ∧ x.2 ≤ y.2) := by
  simp [registeredLe]

theorem registeredLe_refl (x : ℤ × Uuid) : registeredLe x x = true :=
  registeredLe_iff.mpr (Or.inr ⟨rfl, le_rfl⟩)

theorem registeredLe_trans {x y z : ℤ × Uuid} (hxy : registeredLe x y = true) (hyz : registeredLe y z = true) :
    registeredLe x z = true := by
  rw [registeredLe_iff] at hxy hyz ⊢
  obtain hxy | ⟨hxy, hkeys⟩ := hxy
  · obtain hyz | ⟨hyz, -⟩ := hyz
    · exact Or.inl (hxy.trans hyz)
    · exact Or.inl (hyz ▸ hxy)
  · obtain hyz | ⟨hyz, hkeys'⟩ := hyz
    · exact Or.inl (hxy ▸ hyz)
    · exact Or.inr ⟨hxy.trans hyz, hkeys.trans hkeys'⟩

theorem registeredLe_of_not {x y : ℤ × Uuid} (h : registeredLe x y = false) : registeredLe y x = true := by
  rw [← Bool.not_eq_true, registeredLe_iff, not_or, not_lt] at h
  obtain hlt | heq := h.1.lt_or_eq
  · exact registeredLe_iff.mpr (Or.inl hlt)
  · exact registeredLe_iff.mpr (Or.inr ⟨heq, le_of_not_ge fun hle => h.2 ⟨heq.symm, hle⟩⟩)

def EventRow.registered (event : EventRow) : ℤ × Uuid := (event.observedAt, event.id)

def EventRow.RequestOf (event : EventRow) (sessionPk : Uuid) : Prop :=
  event.eventType = "request" ∧ event.sessionPk = sessionPk

/-- The title names the session's least request, of the same owner. -/
structure Names (events : List EventRow) (title : SessionTitle) (event : EventRow) : Prop where
  mem : event ∈ events
  request : event.RequestOf title.sessionPk
  userId : title.userId = event.userId
  eventPk : title.titleEventPk = some event.id
  observedAt : title.titleObservedAt = some event.observedAt
  least : ∀ other ∈ events, other.RequestOf title.sessionPk →
    registeredLe event.registered other.registered = true

structure TitlesKept (events : List EventRow) (titles : List SessionTitle) : Prop where
  sessions : (titles.map SessionTitle.sessionPk).Nodup
  names : ∀ title ∈ titles, ∃ event, Names events title event
  titled : ∀ event ∈ events, event.eventType = "request" → event.sessionPk ∈ titles.map SessionTitle.sessionPk

section Step

variable {events : List EventRow} {titles : List SessionTitle} {row : EventRow}

theorem Names.stored {title : SessionTitle} {event : EventRow} (h : Names events title event)
    (htitles : TitlesKept events titles) (hmem : title ∈ titles) :
    storedTitle title.sessionPk titles = some event.registered := by
  rw [storedTitle, Rows.find_of_mem htitles.sessions hmem]
  simp [h.observedAt, h.eventPk, EventRow.registered]

theorem Names.concat {title : SessionTitle} {event : EventRow} (h : Names events title event)
    (hleast : row.RequestOf title.sessionPk → registeredLe event.registered row.registered = true) :
    Names (events ++ [row]) title event := by
  refine { h with mem := List.mem_append_left _ h.mem, least := fun other hother hrequest => ?_ }
  obtain hold | hnew := List.mem_append.mp hother
  · exact h.least other hold hrequest
  · obtain rfl := List.mem_singleton.mp hnew
    exact hleast hrequest

theorem TitlesKept.concat (h : TitlesKept events titles)
    (hleast : ∀ title ∈ titles, ∀ event, Names events title event → row.RequestOf title.sessionPk →
      registeredLe event.registered row.registered = true)
    (htitled : row.eventType = "request" → row.sessionPk ∈ titles.map SessionTitle.sessionPk) :
    TitlesKept (events ++ [row]) titles := by
  refine ⟨h.sessions, fun title htitle => ?_, fun event hevent hrequest => ?_⟩
  · obtain ⟨event, hnames⟩ := h.names title htitle
    exact ⟨event, hnames.concat (hleast title htitle event hnames)⟩
  · obtain hold | hnew := List.mem_append.mp hevent
    · exact h.titled event hold hrequest
    · obtain rfl := List.mem_singleton.mp hnew
      exact htitled hrequest

variable {userId : Uuid} {now : ℤ}

theorem upsert_mem {new : SessionTitle} {title : SessionTitle} (h : title ∈ new.upsert titles) :
    (title ∈ titles ∧ title.sessionPk ≠ new.sessionPk) ∨
      (title.sessionPk = new.sessionPk ∧ title.titleEventPk = new.titleEventPk ∧
        title.titleObservedAt = new.titleObservedAt ∧
        (title.userId = new.userId ∨ ∃ old ∈ titles, old.sessionPk = new.sessionPk ∧ title.userId = old.userId)) := by
  rw [SessionTitle.upsert] at h
  split_ifs at h with hknown
  · obtain ⟨hmem, hne⟩ | ⟨old, hold, hkey, rfl⟩ := Rows.mem_update.mp h
    · exact Or.inl ⟨hmem, hne⟩
    · exact Or.inr ⟨hkey, rfl, rfl, Or.inr ⟨old, hold, hkey, rfl⟩⟩
  · obtain hmem | hnew := List.mem_append.mp h
    · have hfree := Rows.free_iff.mp (Bool.eq_false_iff.mpr hknown)
      refine Or.inl ⟨hmem, fun hkey => hfree (hkey ▸ List.mem_map_of_mem hmem)⟩
    · obtain rfl := List.mem_singleton.mp hnew
      exact Or.inr ⟨rfl, rfl, rfl, Or.inl rfl⟩

theorem upsert_sessions (new : SessionTitle) (h : (titles.map SessionTitle.sessionPk).Nodup) :
    ((new.upsert titles).map SessionTitle.sessionPk).Nodup ∧
      ∀ k, k ∈ (new.upsert titles).map SessionTitle.sessionPk ↔
        k ∈ titles.map SessionTitle.sessionPk ∨ k = new.sessionPk := by
  unfold SessionTitle.upsert
  split_ifs with hknown
  · refine ⟨Rows.nodup_update (fun _ => rfl) h, fun k => ?_⟩
    have hmem := Rows.any_key.mp hknown
    have hsame : (Rows.update SessionTitle.sessionPk new.sessionPk new.set titles).map SessionTitle.sessionPk =
        titles.map SessionTitle.sessionPk := Rows.map_update fun _ _ _ => rfl
    rw [hsame]
    exact ⟨Or.inl, fun hk => hk.elim id fun heq => heq ▸ hmem⟩
  · refine ⟨Rows.nodup_concat h (Rows.free_iff.mp (Bool.eq_false_iff.mpr hknown)), fun k => ?_⟩
    rw [List.map_append, List.mem_append, List.map_singleton, List.mem_singleton]

theorem TitlesKept.earliest (h : TitlesKept events titles) (hrequest : row.eventType = "request")
    (howner : ∀ other ∈ events, other.sessionPk = row.sessionPk → other.userId = row.userId)
    (hfirst : ∀ stored, storedTitle row.sessionPk titles = some stored →
      registeredLe stored row.registered = false) :
    TitlesKept (events ++ [row])
      (SessionTitle.upsert ⟨row.sessionPk, row.userId, none, some row.id, some row.observedAt, now⟩ titles) := by
  obtain ⟨hnodup, hkeys⟩ := upsert_sessions ⟨row.sessionPk, row.userId, none, some row.id,
    some row.observedAt, now⟩ h.sessions
  refine ⟨hnodup, fun title htitle => ?_, fun event hevent heventRequest => (hkeys _).mpr ?_⟩
  · obtain ⟨hmem, hne⟩ | ⟨hsession, hpk, htime, huser⟩ := upsert_mem htitle
    · obtain ⟨event, hnames⟩ := h.names title hmem
      exact ⟨event, hnames.concat fun hof => absurd hof.2.symm hne⟩
    · refine ⟨row, by simp, ⟨hrequest, hsession.symm⟩, ?_, hpk, htime, fun other hother hof => ?_⟩
      · obtain heq | ⟨old, hold, holdSession, heq⟩ := huser
        · exact heq
        · obtain ⟨event, hnames⟩ := h.names old hold
          rw [heq, hnames.userId, howner event hnames.mem (hnames.request.2.trans holdSession)]
      · obtain hold | hnew := List.mem_append.mp hother
        · obtain ⟨named, hnamed, hnamedSession⟩ := List.mem_map.mp (h.titled other hold hof.1)
          have hsame : named.sessionPk = row.sessionPk := hnamedSession.trans (hof.2.trans hsession)
          obtain ⟨event, hnames⟩ := h.names named hnamed
          have hbefore := hfirst _ (hsame ▸ hnames.stored h hnamed)
          exact registeredLe_trans (registeredLe_of_not hbefore)
            (hnames.least other hold ⟨hof.1, hnamedSession.symm⟩)
        · obtain rfl := List.mem_singleton.mp hnew
          exact registeredLe_refl _
  · obtain hold | hnew := List.mem_append.mp hevent
    · exact Or.inl (h.titled event hold heventRequest)
    · obtain rfl := List.mem_singleton.mp hnew
      exact Or.inr rfl

theorem TitlesKept.kept {titles' : List SessionTitle} (h : TitlesKept events titles)
    (hkept : TitleKept row.userId row.sessionPk row.id row.eventType row.observedAt now titles titles')
    (howner : ∀ other ∈ events, other.sessionPk = row.sessionPk → other.userId = row.userId) :
    TitlesKept (events ++ [row]) titles' := by
  cases hkept with
  | response htype =>
    exact h.concat (fun _ _ _ _ hof => absurd hof.1 htype) fun hrequest => absurd hrequest htype
  | later hrequest stored hstored hle =>
    apply h.concat
    · intro title htitle event hnames hof
      have hevent := hnames.stored h htitle
      rw [← hof.2, hstored] at hevent
      exact Option.some.inj hevent ▸ hle
    · intro _
      rw [storedTitle] at hstored
      obtain ⟨title, hfound, -⟩ := Option.bind_eq_some_iff.mp hstored
      obtain ⟨hmem, hkey⟩ := Rows.find_mem hfound
      exact hkey ▸ List.mem_map_of_mem hmem
  | earliest hrequest hfirst => exact h.earliest hrequest howner hfirst

end Step

end AbyssBackend.Storage
