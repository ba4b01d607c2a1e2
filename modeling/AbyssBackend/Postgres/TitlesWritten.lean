import AbyssBackend.Postgres.Integrity

namespace AbyssBackend.Postgres

open Attachments Drafts Runs Storage Streams Text

/-- A session's title names its least request, and it has one if it has a request; requests that are yet to be
captured aside. -/
structure TitledBut (owed : EventRow → Prop) (events : List EventRow) (titles : List SessionTitle) (sessionPk : Uuid) :
    Prop where
  names : ∀ title ∈ titles, title.sessionPk = sessionPk → ∃ event ∈ events, event.RequestOf sessionPk ∧
    title.userId = event.userId ∧ title.titleEventPk = some event.id ∧ title.titleObservedAt = some event.observedAt ∧
    ∀ other ∈ events, other.RequestOf sessionPk →
      owed other ∨ registeredLe event.registered other.registered = true
  titled : ∀ event ∈ events, event.RequestOf sessionPk →
    owed event ∨ sessionPk ∈ titles.map SessionTitle.sessionPk

def noneOwed (_ : EventRow) : Prop := False

/-- An event whose title is yet to be captured. -/
def owedIn (todo : List Statement) (event : EventRow) : Prop :=
  ∃ sessionPk delivery, .captureTitle sessionPk delivery ∈ todo ∧ delivery.draw.eventPk = event.id

section Titles

variable {owed owed' : EventRow → Prop} {events events' : List EventRow} {titles titles' : List SessionTitle}
  {sessionPk : Uuid}

theorem TitledBut.mono (h : TitledBut owed events titles sessionPk)
    (howed : ∀ event ∈ events, event.RequestOf sessionPk → owed event → owed' event) :
    TitledBut owed' events titles sessionPk := by
  refine ⟨fun title htitle hsession => ?_, fun event hevent hrequest => (h.titled event hevent hrequest).imp_left ?_⟩
  · obtain ⟨event, hevent, hrequest, huser, hpk, htime, hleast⟩ := h.names title htitle hsession
    exact ⟨event, hevent, hrequest, huser, hpk, htime, fun other hother hof =>
      (hleast other hother hof).imp_left (howed other hother hof)⟩
  · exact howed event hevent hrequest

/-- What is said of a session's title depends on its own events and its own title alone. -/
theorem TitledBut.congr (h : TitledBut owed events titles sessionPk)
    (hevents : ∀ event : EventRow, event.sessionPk = sessionPk → (event ∈ events ↔ event ∈ events'))
    (htitles : ∀ title : SessionTitle, title.sessionPk = sessionPk → (title ∈ titles ↔ title ∈ titles')) :
    TitledBut owed events' titles' sessionPk := by
  refine ⟨fun title htitle hsession => ?_, fun event hevent hrequest => ?_⟩
  · obtain ⟨event, hevent, hrequest, huser, hpk, htime, hleast⟩ :=
      h.names title ((htitles title hsession).mpr htitle) hsession
    refine ⟨event, (hevents event hrequest.2).mp hevent, hrequest, huser, hpk, htime, fun other hother hof => ?_⟩
    exact hleast other ((hevents other hof.2).mpr hother) hof
  · refine (h.titled event ((hevents event hrequest.2).mpr hevent) hrequest).imp_right fun hmem => ?_
    obtain ⟨title, htitle, hsession⟩ := List.mem_map.mp hmem
    exact List.mem_map.mpr ⟨title, (htitles title hsession).mp htitle, hsession⟩

theorem titledBut_concat {event : EventRow} (h : TitledBut owed events titles sessionPk) (howed : owed event) :
    TitledBut owed (events ++ [event]) titles sessionPk := by
  refine ⟨fun title htitle hsession => ?_, fun other hother hrequest => ?_⟩
  · obtain ⟨named, hnamed, hrequest, huser, hpk, htime, hleast⟩ := h.names title htitle hsession
    refine ⟨named, List.mem_append_left _ hnamed, hrequest, huser, hpk, htime, fun other hother hof => ?_⟩
    obtain hold | hnew := List.mem_append.mp hother
    · exact hleast other hold hof
    · obtain rfl := List.mem_singleton.mp hnew
      exact Or.inl howed
  · obtain hold | hnew := List.mem_append.mp hother
    · exact h.titled other hold hrequest
    · obtain rfl := List.mem_singleton.mp hnew
      exact Or.inl howed

theorem TitledBut.stored (h : TitledBut owed events titles sessionPk)
    (hnodup : (titles.map SessionTitle.sessionPk).Nodup) {title : SessionTitle} (htitle : title ∈ titles)
    (hsession : title.sessionPk = sessionPk) :
    ∃ event ∈ events, event.RequestOf sessionPk ∧ title.userId = event.userId ∧
      storedTitle sessionPk titles = some event.registered ∧ ∀ other ∈ events, other.RequestOf sessionPk →
        owed other ∨ registeredLe event.registered other.registered = true := by
  obtain ⟨event, hevent, hrequest, huser, hpk, htime, hleast⟩ := h.names title htitle hsession
  refine ⟨event, hevent, hrequest, huser, ?_, hleast⟩
  rw [storedTitle, ← hsession, Rows.find_of_mem hnodup htitle]
  simp [hpk, htime, EventRow.registered]

variable {event : EventRow}

/-- A request that does not come before the one that the title names leaves the title as it is. -/
theorem TitledBut.later (h : TitledBut owed events titles sessionPk)
    (hnodup : (titles.map SessionTitle.sessionPk).Nodup) {stored : ℤ × Uuid}
    (hstored : storedTitle sessionPk titles = some stored) (hle : registeredLe stored event.registered = true)
    (howed : ∀ other ∈ events, owed other → owed' other ∨ other = event) :
    TitledBut owed' events titles sessionPk := by
  have hmem : sessionPk ∈ titles.map SessionTitle.sessionPk := by
    obtain ⟨title, hfound, -⟩ := Option.bind_eq_some_iff.mp hstored
    obtain ⟨htitle, hsession⟩ := Rows.find_mem hfound
    exact hsession ▸ List.mem_map_of_mem htitle
  refine ⟨fun title htitle hsession => ?_, fun other hother hrequest => Or.inr hmem⟩
  obtain ⟨named, hnamed, hrequest, huser, hpk, htime, hleast⟩ := h.names title htitle hsession
  refine ⟨named, hnamed, hrequest, huser, hpk, htime, fun other hother hof => ?_⟩
  obtain howes | hle' := hleast other hother hof
  · obtain hstill | rfl := howed other hother howes
    · exact Or.inl hstill
    · have hregistered : named.registered = stored := by
        rw [storedTitle, ← hsession, Rows.find_of_mem hnodup htitle] at hstored
        simpa [hpk, htime, EventRow.registered] using hstored
      exact Or.inr (hregistered ▸ hle)
  · exact Or.inr hle'

/-- A request that comes before the one that the title names, or comes first, is named. -/
theorem TitledBut.earliest (h : TitledBut owed events titles sessionPk)
    (hnodup : (titles.map SessionTitle.sessionPk).Nodup) (hevent : event ∈ events)
    (hrequest : event.RequestOf sessionPk)
    (hfirst : ∀ stored, storedTitle sessionPk titles = some stored → registeredLe stored event.registered = false)
    (howed : ∀ other ∈ events, owed other → owed' other ∨ other = event) {row : SessionTitle}
    (hsession : row.sessionPk = sessionPk) (huser : row.userId = event.userId)
    (hpk : row.titleEventPk = some event.id) (htime : row.titleObservedAt = some event.observedAt) :
    TitledBut owed' events (overlay SessionTitle.sessionPk [row] titles) sessionPk := by
  refine ⟨fun title htitle htitleSession => ?_, fun other hother hof => Or.inr (keys_overlay.mpr (Or.inr ?_))⟩
  · obtain ⟨-, hne⟩ | hnew := mem_overlay.mp htitle
    · exact absurd (by simp [hsession, htitleSession]) hne
    · obtain rfl := List.mem_singleton.mp hnew
      refine ⟨event, hevent, hrequest, huser, hpk, htime, fun other hother hof => ?_⟩
      have hleast : owed other ∨ registeredLe event.registered other.registered = true := by
        obtain howes | hmem := h.titled other hother hof
        · exact Or.inl howes
        · obtain ⟨title, htitle, htitleSession⟩ := List.mem_map.mp hmem
          obtain ⟨named, -, -, -, hstored, hnamed⟩ := h.stored hnodup htitle htitleSession
          exact (hnamed other hother hof).imp_right (registeredLe_trans (registeredLe_of_not (hfirst _ hstored)))
      obtain howes | hle := hleast
      · obtain hstill | rfl := howed other hother howes
        · exact Or.inl hstill
        · exact Or.inr (registeredLe_refl _)
      · exact Or.inr hle
  · rw [List.map_singleton, hsession]
    exact List.mem_singleton_self _

end Titles

/-- A transaction keeps the titles of the sessions that it holds. -/
structure Transaction.Titled (committed : Tables) (transaction : Transaction) : Prop where
  sessions : (transaction.own.sessionTitles.map SessionTitle.sessionPk).Nodup
  refs : ∀ title ∈ transaction.own.sessionTitles, title.sessionPk ∈ transaction.own.sessions.map SessionRow.id
  titled : ∀ sessionPk ∈ transaction.own.sessions.map SessionRow.id, TitledBut (owedIn transaction.todo)
    (view committed transaction).events (view committed transaction).sessionTitles sessionPk

section Statements

variable {others : List Tables} {committed : Tables} {before after : Transaction} {statement : Statement}

/-- What capturing a title makes of the session's title row, if it changes it. -/
inductive Captured (titles : List SessionTitle) (userId sessionPk : Uuid) (delivery : Delivery) :
    Option SessionTitle → Prop
  | response (htype : delivery.event.eventType ≠ .request) : Captured titles userId sessionPk delivery none
  | later (stored : ℤ × Uuid) (hstored : storedTitle sessionPk titles = some stored)
      (hle : registeredLe stored (delivery.observedAt, delivery.draw.eventPk) = true) :
      Captured titles userId sessionPk delivery none
  | earliest (row : SessionTitle) (hrequest : delivery.event.eventType = .request)
      (hfirst : ∀ stored, storedTitle sessionPk titles = some stored →
        registeredLe stored (delivery.observedAt, delivery.draw.eventPk) = false)
      (hsession : row.sessionPk = sessionPk) (hpk : row.titleEventPk = some delivery.draw.eventPk)
      (htime : row.titleObservedAt = some delivery.observedAt)
      (huser : row.userId = userId ∨ ∃ old ∈ titles, old.sessionPk = sessionPk ∧ row.userId = old.userId) :
      Captured titles userId sessionPk delivery (some row)

theorem captureTitle_spec {sessionPk : Uuid} {delivery : Delivery} {title : Option SessionTitle}
    (h : captureTitle others committed before sessionPk delivery = some title) :
    Captured (view committed before).sessionTitles before.userId sessionPk delivery title := by
  unfold captureTitle at h
  dsimp only at h
  split at h
  · next htype =>
    cases h
    exact .response htype
  · next htype =>
    split at h
    · cases h
    · split at h
      · next hstored =>
        cases h
        obtain ⟨stored, hfound, hle⟩ := (Option.any_eq_true ..).mp hstored
        exact .later stored hfound hle
      · next hnone =>
        have hfirst : ∀ stored, storedTitle sessionPk (view committed before).sessionTitles = some stored →
            registeredLe stored (delivery.observedAt, delivery.draw.eventPk) = false :=
          fun stored hstored => Bool.eq_false_iff.mpr fun hle => hnone ((Option.any_eq_true ..).mpr ⟨stored, hstored, hle⟩)
        split at h
        · next existing hfind =>
          cases h
          obtain ⟨hmem, hsession⟩ := Rows.find_mem hfind
          exact .earliest _ (not_not.mp htype) hfirst hsession rfl rfl (Or.inr ⟨existing, hmem, hsession, rfl⟩)
        · cases h
          exact .earliest _ (not_not.mp htype) hfirst rfl rfl rfl (Or.inl rfl)

variable [Sha256]

theorem Execution.owed (h : Execution others committed before statement after)
    (hne : ∀ sessionPk delivery, statement ≠ .captureTitle sessionPk delivery) {event : EventRow}
    (howed : owedIn (statement :: before.todo) event) : owedIn after.todo event := by
  obtain ⟨sessionPk, delivery, hmem, hpk⟩ := howed
  obtain hhead | hrest := List.mem_cons.mp hmem
  · exact absurd hhead.symm (hne sessionPk delivery)
  · exact ⟨sessionPk, delivery, h.todo _ hrest, hpk⟩

/-- What holds of a transaction that is about to run a statement. -/
structure Runnable (committed : Tables) (before : Transaction) (statement : Statement) : Prop where
  apart : ViewApart committed before
  own : Linked before.own
  linked : Linked (view committed before)
  events : ((view committed before).events.map EventRow.id).Nodup
  placed : statement.Placed before.userId before.own
  committedTitles : (committed.sessionTitles.map SessionTitle.sessionPk).Nodup
  committedTitled : ∀ sessionPk, TitledBut noneOwed committed.events committed.sessionTitles sessionPk

theorem Runnable.same_owner (h : Runnable committed before statement) {row other : EventRow}
    (hrow : row ∈ (view committed before).events) (hother : other ∈ (view committed before).events)
    (hsame : row.sessionPk = other.sessionPk) : row.userId = other.userId := by
  obtain ⟨session, hsession, hof⟩ := h.linked.sessions row hrow
  obtain ⟨session', hsession', hof'⟩ := h.linked.sessions other hother
  have hid : session.id = session'.id := by rw [hof.id, hof'.id, hsame]
  obtain rfl := List.inj_on_of_nodup_map h.apart.sessions hsession hsession' hid
  rw [← hof.userId, hof'.userId]

/-- A session that a transaction does not hold has the events and the title that are committed. -/
theorem unheld {own : Tables} (hlinked : Linked own)
    (hrefs : ∀ title ∈ own.sessionTitles, title.sessionPk ∈ own.sessions.map SessionRow.id) {sessionPk : Uuid}
    (hfree : sessionPk ∉ own.sessions.map SessionRow.id) :
    (∀ event : EventRow, event.sessionPk = sessionPk →
        (event ∈ committed.events ↔ event ∈ (own.over committed).events)) ∧
      ∀ title : SessionTitle, title.sessionPk = sessionPk →
        (title ∈ committed.sessionTitles ↔ title ∈ (own.over committed).sessionTitles) := by
  constructor
  · intro event hsession
    refine ⟨List.mem_append_left _, fun hmem => (List.mem_append.mp hmem).resolve_right fun hown => hfree ?_⟩
    obtain ⟨session, hheld, hof⟩ := hlinked.sessions event hown
    exact List.mem_map.mpr ⟨session, hheld, hof.id.trans hsession⟩
  · intro title hsession
    have hunheld : ∀ other ∈ own.sessionTitles, other.sessionPk ≠ sessionPk :=
      fun other hother hsame => hfree (hsame ▸ hrefs other hother)
    refine ⟨fun hmem => mem_overlay.mpr (Or.inl ⟨hmem, fun hheld => ?_⟩), fun hmem => ?_⟩
    · obtain ⟨other, hother, hsame⟩ := List.mem_map.mp hheld
      exact hunheld other hother (hsame.trans hsession)
    · obtain ⟨hold, -⟩ | hown := mem_overlay.mp hmem
      · exact hold
      · exact absurd hsession (hunheld title hown)

theorem Runnable.captured (h : Runnable committed before statement) {sessionPk : Uuid} {delivery : Delivery}
    (hstatement : statement = .captureTitle sessionPk delivery) {title : Option SessionTitle}
    (hown : (before.own.sessionTitles.map SessionTitle.sessionPk).Nodup)
    (hcaptured : Captured (view committed before).sessionTitles before.userId sessionPk delivery title)
    {other : Uuid} (htitled : TitledBut (owedIn (statement :: before.todo)) (view committed before).events
      (view committed before).sessionTitles other) :
    TitledBut (owedIn before.todo) (view committed before).events
      (overlay SessionTitle.sessionPk title.toList (view committed before).sessionTitles) other := by
  subst hstatement
  obtain ⟨deviceId, hplaced⟩ := h.placed
  have hevent : newEvent before.userId deviceId sessionPk delivery ∈ (view committed before).events :=
    List.mem_append_right _ hplaced
  have hnodup : ((view committed before).sessionTitles.map SessionTitle.sessionPk).Nodup :=
    nodup_overlay hown h.committedTitles
  have howed : ∀ row ∈ (view committed before).events, owedIn (.captureTitle sessionPk delivery :: before.todo) row →
      owedIn before.todo row ∨ row = newEvent before.userId deviceId sessionPk delivery := by
    rintro row hrow ⟨session, owing, hmem, hpk⟩
    obtain hhead | hrest := List.mem_cons.mp hmem
    · obtain ⟨rfl, rfl⟩ := Statement.captureTitle.inj hhead
      exact Or.inr (List.inj_on_of_nodup_map h.events hrow hevent hpk.symm)
    · exact Or.inl ⟨session, owing, hrest, hpk⟩
  have hoverlay : overlay SessionTitle.sessionPk [] (view committed before).sessionTitles =
      (view committed before).sessionTitles := by simp [overlay]
  by_cases hsame : other = sessionPk
  · subst hsame
    cases hcaptured with
    | response htype =>
      rw [Option.toList_none, hoverlay]
      refine htitled.mono fun row hrow hrequest howes => (howed row hrow howes).resolve_right fun hnew => htype ?_
      have htype : delivery.event.eventType.asStr = "request" := by
        rw [← newEvent_type before.userId deviceId other delivery, ← hnew]
        exact hrequest.1
      cases hevent : delivery.event.eventType with
      | request => rfl
      | response => simp [hevent, UsageEventType.asStr] at htype
    | later stored hstored hle =>
      rw [Option.toList_none, hoverlay]
      have hle : registeredLe stored (newEvent before.userId deviceId other delivery).registered = true := hle
      exact htitled.later hnodup hstored hle howed
    | earliest row hrequest hfirst hsession hpk htime huser =>
      refine htitled.earliest hnodup hevent ⟨?_, rfl⟩ hfirst howed hsession ?_ hpk htime
      · rw [newEvent_type, hrequest]
        rfl
      · obtain hown | ⟨old, hold, holdSession, hown⟩ := huser
        · exact hown
        · obtain ⟨named, hnamed, hof, holdUser, -⟩ := htitled.names old hold holdSession
          rw [hown, holdUser]
          exact h.same_owner hnamed hevent hof.2
  · have hmono : TitledBut (owedIn before.todo) (view committed before).events
        (view committed before).sessionTitles other := by
      refine htitled.mono fun row hrow hrequest howes => (howed row hrow howes).resolve_right ?_
      rintro rfl
      exact hsame hrequest.2.symm
    refine hmono.congr (fun _ _ => Iff.rfl) fun old hold => ?_
    cases hcaptured with
    | earliest row hrequest hfirst hsession =>
      have hne : old.sessionPk ∉ [row].map SessionTitle.sessionPk := by
        simp [hsession, hold, hsame]
      refine ⟨fun hmem => mem_overlay.mpr (Or.inl ⟨hmem, hne⟩), fun hmem => ?_⟩
      obtain ⟨hmem, -⟩ | hnew := mem_overlay.mp hmem
      · exact hmem
      · exact absurd (List.mem_map_of_mem hnew) hne
    | _ => rw [Option.toList_none, hoverlay]

theorem Execution.titled (h : Execution others committed before statement after)
    (hrunnable : Runnable committed before statement)
    (htitled : Transaction.Titled committed { before with todo := statement :: before.todo }) :
    after.Titled committed := by
  have hmono (hne : ∀ sessionPk delivery, statement ≠ .captureTitle sessionPk delivery) {sessionPk : Uuid}
      (hbut : TitledBut (owedIn (statement :: before.todo)) (view committed before).events
        (view committed before).sessionTitles sessionPk) :
      TitledBut (owedIn after.todo) (view committed before).events (view committed before).sessionTitles sessionPk :=
    hbut.mono fun event _ _ howed => h.owed hne howed
  cases h with
  | session deviceId delivery row hrow =>
    refine ⟨htitled.sessions, fun title htitle => keys_overlay.mpr (Or.inl (htitled.refs title htitle)),
      fun sessionPk _ => ?_⟩
    by_cases hheld : sessionPk ∈ before.own.sessions.map SessionRow.id
    · exact hmono (fun _ _ => Statement.noConfusion) (htitled.titled sessionPk hheld)
    · obtain ⟨hevents, htitles⟩ := unheld hrunnable.own htitled.refs hheld
      exact ((hrunnable.committedTitled sessionPk).congr hevents htitles).mono fun _ _ _ hnone => hnone.elim
  | inserted deviceId sessionPk delivery hrow =>
    refine ⟨htitled.sessions, htitled.refs, fun other hheld => ?_⟩
    have hevents : ∀ row, committed.events ++ (before.own.events ++ [row]) =
        (view committed before).events ++ [row] := fun row => (List.append_assoc ..).symm
    unfold view Tables.over
    rw [hevents]
    refine titledBut_concat (hmono (fun _ _ => Statement.noConfusion) (htitled.titled other hheld)) ?_
    exact ⟨sessionPk, delivery, by simp, rfl⟩
  | title sessionPk delivery title htitle =>
    have hcaptured := captureTitle_spec htitle
    refine ⟨nodup_overlay (by cases title <;> simp) htitled.sessions, fun row hrow => ?_, fun other hheld => ?_⟩
    · obtain ⟨hold, -⟩ | hnew := mem_overlay.mp hrow
      · exact htitled.refs row hold
      · obtain ⟨deviceId, hevent⟩ := hrunnable.placed
        obtain ⟨session, hsession, hof⟩ := hrunnable.own.sessions _ hevent
        cases hcaptured with
        | earliest new hrequest hfirst hsessionPk =>
          obtain rfl := List.mem_singleton.mp hnew
          exact List.mem_map.mpr ⟨session, hsession, hof.id.trans hsessionPk.symm⟩
        | _ => exact absurd hnew List.not_mem_nil
    · have hafter := hrunnable.captured rfl htitled.sessions hcaptured (htitled.titled other hheld)
      have hview : overlay SessionTitle.sessionPk title.toList (view committed before).sessionTitles =
          overlay SessionTitle.sessionPk (overlay SessionTitle.sessionPk title.toList before.own.sessionTitles)
            committed.sessionTitles := overlay_overlay.symm
      rw [hview] at hafter
      exact hafter
  | _ =>
    exact ⟨htitled.sessions, htitled.refs, fun sessionPk hheld =>
      hmono (fun _ _ => Statement.noConfusion) (htitled.titled sessionPk hheld)⟩

end Statements

section Steps

variable {database : Database} {index other : ℕ} {transaction after : Transaction} {statement : Statement}
  {rest : List Statement}

theorem HeldApart.apart {ρ μ : Type} {id : ρ → Uuid} {key : ρ → μ} {first : ρ → ℤ} {last : ρ → Option ℤ}
    {draft : Transaction → Draft ρ Uuid ℤ} {rows : List ρ}
    {told : List (Uuid × ℤ)} (h : HeldApart id key first last draft rows told database.transactions)
    (hget : database.transactions[index]? = some transaction) {transaction' : Transaction}
    (hget' : database.transactions[other]? = some transaction') (hne : index ≠ other) :
    ∀ row ∈ (draft transaction).rows, ∀ row' ∈ (draft transaction').rows, id row ≠ id row' := by
  obtain ⟨seen, -, h⟩ := h
  have hdraft : drafts draft database.transactions index = draft transaction := drafts_get hget
  have hdraft' : drafts draft database.transactions other = draft transaction' := drafts_get hget'
  exact fun row hrow row' hrow' => (h.apart index other hne row (hdraft ▸ hrow) row' (hdraft' ▸ hrow')).1

theorem RowsApart.view {ρ κ : Type} {table : Tables → List ρ} {key : ρ → κ} (h : RowsApart table key database)
    (hget : database.transactions[index]? = some transaction) :
    ((table database.committed ++ table transaction.own).map key).Nodup := by
  have hdraft : drafts (fun transaction => table transaction.own) database.transactions index = table transaction.own :=
    drafts_get hget
  rw [List.map_append, List.nodup_append]
  refine ⟨h.keys, hdraft ▸ h.draftKeys index, ?_⟩
  rintro k hk k' hk' rfl
  obtain ⟨row, hrow, rfl⟩ := List.mem_map.mp hk'
  exact h.fresh index row (hdraft ▸ hrow) hk

variable [Sha256]

/-- The titles that are committed, and those of the sessions that transactions hold. -/
structure TitlesWritten (database : Database) : Prop where
  related : Related database
  sessions : (database.committed.sessionTitles.map SessionTitle.sessionPk).Nodup
  titled : ∀ sessionPk, TitledBut noneOwed database.committed.events database.committed.sessionTitles sessionPk
  own : ∀ transaction ∈ database.transactions, transaction.Titled database.committed

theorem TitlesWritten.runnable (h : TitlesWritten database) (hget : database.transactions[index]? = some transaction)
    (htodo : transaction.todo = statement :: rest) :
    Runnable database.committed { transaction with todo := rest } statement where
  apart := ⟨(h.related.keys.view hget).devices, (h.related.keys.view hget).sessions⟩
  own := (h.related.placed transaction (List.mem_of_getElem? hget)).linked
  linked := (h.related.placed transaction (List.mem_of_getElem? hget)).linked.over h.related.linked
    (h.related.extends hget)
  events := show ((database.committed.events ++ transaction.own.events).map EventRow.id).Nodup from
    h.related.keys.events.view hget
  placed := (h.related.placed transaction (List.mem_of_getElem? hget)).todo statement (htodo ▸ List.mem_cons_self)
  committedTitles := h.sessions
  committedTitled := h.titled

theorem TitlesWritten.executed (h : TitlesWritten database) (hget : database.transactions[index]? = some transaction)
    (htodo : transaction.todo = statement :: rest)
    (hexecution : Execution (database.others index) database.committed { transaction with todo := rest } statement
      after) : after.Titled database.committed := by
  have hrunnable := h.runnable hget htodo
  have htitled := h.own transaction (List.mem_of_getElem? hget)
  cases transaction with
  | mk userId begunAt own todo deviceTimes sessionTimes running =>
    obtain rfl : todo = statement :: rest := htodo
    exact hexecution.titled hrunnable htitled

omit [Sha256] in
theorem titled_ended (committed : Tables) (transaction : Transaction) : transaction.ended.Titled committed :=
  ⟨List.nodup_nil, by simp [Transaction.ended], by simp [Transaction.ended]⟩

/-- A commit keeps the titles of the sessions of its own, and leaves those of the others. -/
theorem TitlesWritten.committed (h : TitlesWritten database) (hget : database.transactions[index]? = some transaction)
    (htodo : transaction.todo = []) (sessionPk : Uuid) :
    TitledBut noneOwed (transaction.own.over database.committed).events
      (transaction.own.over database.committed).sessionTitles sessionPk := by
  have htitled := h.own transaction (List.mem_of_getElem? hget)
  by_cases hheld : sessionPk ∈ transaction.own.sessions.map SessionRow.id
  · refine (htitled.titled sessionPk hheld).mono fun event _ _ howed => ?_
    obtain ⟨_, _, hmem, -⟩ := howed
    rw [htodo] at hmem
    exact absurd hmem List.not_mem_nil
  · obtain ⟨hevents, htitles⟩ :=
      unheld (h.related.placed transaction (List.mem_of_getElem? hget)).linked htitled.refs hheld
    exact (h.titled sessionPk).congr hevents htitles

theorem TitlesWritten.others (h : TitlesWritten database) (hget : database.transactions[index]? = some transaction)
    {transaction' : Transaction} (hget' : database.transactions[other]? = some transaction') (hne : index ≠ other) :
    transaction'.Titled (transaction.own.over database.committed) := by
  have htitled := h.own transaction (List.mem_of_getElem? hget)
  have htitled' := h.own transaction' (List.mem_of_getElem? hget')
  refine ⟨htitled'.sessions, htitled'.refs, fun sessionPk hheld => ?_⟩
  have hfree : sessionPk ∉ transaction.own.sessions.map SessionRow.id := by
    intro hmem
    obtain ⟨row, hrow, rfl⟩ := List.mem_map.mp hmem
    obtain ⟨row', hrow', hsame⟩ := List.mem_map.mp hheld
    exact h.related.keys.sessions.apart hget hget' hne row hrow row' hrow' hsame.symm
  obtain ⟨hevents, htitles⟩ :=
    unheld (h.related.placed transaction (List.mem_of_getElem? hget)).linked htitled.refs hfree
  refine (htitled'.titled sessionPk hheld).congr (fun event hsession => ?_) fun title hsession => ?_
  · exact List.mem_append.trans ((or_congr_left (hevents event hsession)).trans List.mem_append.symm)
  · exact mem_overlay.trans ((or_congr_left (and_congr_left' (htitles title hsession))).trans mem_overlay.symm)

omit [Sha256] in
theorem titled_begun (userId : Uuid) (begunAt : ℤ) (todo : List Statement) (committed : Tables) :
    Transaction.Titled committed { userId, begunAt, todo } :=
  ⟨List.nodup_nil, by simp, by simp⟩

theorem TitlesWritten.step [Base64] {before after : Database} {action : IngestAction} (h : TitlesWritten before)
    (hstep : before.Stepped action after) : TitlesWritten after := by
  have hrelated := h.related.step hstep
  cases hstep with
  | begin request userId maxBatchSize draws begunAt validatedAttachments hvalid huser =>
    refine ⟨hrelated, h.sessions, h.titled, fun transaction hmem => ?_⟩
    obtain hold | hnew := List.mem_append.mp hmem
    · exact h.own transaction hold
    · obtain rfl := List.mem_singleton.mp hnew
      exact titled_begun ..
  | statement index transaction after statement rest hget htodo hexecuted =>
    refine ⟨hrelated, h.sessions, h.titled, fun other hmem => ?_⟩
    obtain hold | rfl := List.mem_or_eq_of_mem_set hmem
    · exact h.own other hold
    · exact h.executed hget htodo (execution hexecuted)
  | commit index transaction hget hrunning htodo =>
    have htitled := h.own transaction (List.mem_of_getElem? hget)
    refine ⟨hrelated, nodup_overlay htitled.sessions h.sessions, h.committed hget htodo, fun other hmem => ?_⟩
    obtain ⟨i, hget'⟩ := List.getElem?_of_mem hmem
    by_cases hi : index = i
    · subst hi
      rw [List.getElem?_set_self (List.getElem?_eq_some_iff.mp hget).1] at hget'
      obtain rfl := Option.some.inj hget'
      exact titled_ended _ transaction
    · rw [List.getElem?_set_ne hi] at hget'
      exact h.others hget hget' hi
  | abort index transaction hget hrunning =>
    refine ⟨hrelated, h.sessions, h.titled, fun other hmem => ?_⟩
    obtain hold | rfl := List.mem_or_eq_of_mem_set hmem
    · exact h.own other hold
    · exact titled_ended _ transaction

end Steps

section Runs

variable [Sha256] {start database : Database}

omit [Sha256] in
theorem titlesKept_iff {events : List EventRow} {titles : List SessionTitle} :
    TitlesKept events titles ↔ (titles.map SessionTitle.sessionPk).Nodup ∧
      ∀ sessionPk, TitledBut noneOwed events titles sessionPk := by
  constructor
  · refine fun h => ⟨h.sessions, fun sessionPk => ⟨fun title htitle hsession => ?_, fun event hevent hrequest => ?_⟩⟩
    · obtain ⟨event, hnames⟩ := h.names title htitle
      subst hsession
      exact ⟨event, hnames.mem, hnames.request, hnames.userId, hnames.eventPk, hnames.observedAt,
        fun other hother hof => Or.inr (hnames.least other hother hof)⟩
    · exact Or.inr (hrequest.2 ▸ h.titled event hevent hrequest.1)
  · rintro ⟨hnodup, htitled⟩
    refine ⟨hnodup, fun title htitle => ?_, fun event hevent hrequest => ?_⟩
    · obtain ⟨event, hevent, hof, huser, hpk, htime, hleast⟩ := (htitled title.sessionPk).names title htitle rfl
      exact ⟨event, hevent, hof, huser, hpk, htime, fun other hother hrequest =>
        (hleast other hother hrequest).resolve_left id⟩
    · exact ((htitled event.sessionPk).titled event hevent ⟨hrequest, rfl⟩).resolve_left id

/-- However ingests interleave, every session's title names the earliest of its requests that are committed, and every
session with a request has one. -/
theorem titles_along [Base64] (hstart : Integral start.committed)
    (htitles : TitlesKept start.committed.events start.committed.sessionTitles) (hrest : start.transactions = [])
    (h : Reaches Database.step anyStep start database) :
    TitlesKept database.committed.events database.committed.sessionTitles := by
  obtain ⟨hnodup, htitled⟩ := titlesKept_iff.mp htitles
  have hwritten : TitlesWritten start := ⟨hstart.related hrest, hnodup, htitled, by simp [hrest]⟩
  have hreached : TitlesWritten database :=
    h.invariant hwritten fun _ _ _ hbefore _ hstep => hbefore.step (Database.stepped hstep)
  exact titlesKept_iff.mpr ⟨hreached.sessions, hreached.titled⟩

omit [Sha256] in
theorem titlesKept_none : TitlesKept [] [] := ⟨List.nodup_nil, by simp, by simp⟩

end Runs

section Overlap

open Fixtures

local instance titlesDigest : Sha256 := cargoDigest

local instance titlesContent : Base64 := noContent

theorem titles_after_overlap : overlapped.committed.sessionTitles.map SessionTitle.titleObservedAt = [some 0] ∧
    TitlesKept overlapped.committed.events overlapped.committed.sessionTitles :=
  ⟨by decide +kernel, titles_along integral_none titlesKept_none rfl (reaches_run overlap_run)⟩

end Overlap

end AbyssBackend.Postgres
