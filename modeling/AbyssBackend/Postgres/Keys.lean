import AbyssBackend.Postgres.Executions

namespace AbyssBackend.Postgres

open Attachments Drafts Storage Streams Text

section Upserts

variable {ρ μ : Type} {id : ρ → Uuid} {key : ρ → μ} {first : ρ → ℤ} {last : ρ → Option ℤ}
  {draft : Transaction → Draft ρ Uuid ℤ} {table : Tables → List ρ} {rows : List ρ} {told kept : List (Uuid × ℤ)}
  {database : Database} {index : ℕ} {transaction after : Transaction}

/-- An upsert folds a time into a row that the transaction sees, or makes a new one. -/
inductive Upserted (id : ρ → Uuid) (key : ρ → μ) (first : ρ → ℤ) (last : ρ → Option ℤ) (table : Tables → List ρ)
    (others : List Tables) (own committed : Tables) (time : ℤ) : ρ → Prop
  | known (existing row : ρ) (hmem : existing ∈ overlay id (table own) (table committed))
      (hfree : ∀ tables ∈ others, ∀ other ∈ table tables, key other ≠ key existing)
      (hid : id row = id existing) (hkey : key row = key existing) (hfirst : first row = min (first existing) time)
      (hlast : ∀ t, last existing = some t → last row = some (max t time)) :
      Upserted id key first last table others own committed time row
  | new (row : ρ) (hkey : key row ∉ (overlay id (table own) (table committed)).map key)
      (hfree : ∀ tables ∈ others, ∀ other ∈ table tables, key other ≠ key row)
      (hid : ∀ tables ∈ own :: committed :: others, ∀ other ∈ table tables, id other ≠ id row)
      (hfirst : first row = time) (hlast : last row = some time) :
      Upserted id key first last table others own committed time row

theorem DeviceUpserted.upserted {others : List Tables} {committed : Tables} {delivery : Delivery} {row : DeviceRow}
    (h : DeviceUpserted others committed transaction delivery row) :
    Upserted DeviceRow.id DeviceRow.key DeviceRow.firstSeenAt (fun row => some row.lastSeenAt) Tables.devices others
      transaction.own committed delivery.observedAt row := by
  cases h with
  | known existing hmem hfree =>
    refine .known existing _ hmem hfree rfl rfl rfl fun t ht => ?_
    obtain rfl := Option.some.inj ht
    rfl
  | new hkey hfree hid => exact .new _ hkey hfree hid rfl rfl

theorem SessionUpserted.upserted {others : List Tables} {committed : Tables} {deviceId : Uuid} {delivery : Delivery}
    {row : SessionRow} (h : SessionUpserted others committed transaction deviceId delivery row) :
    Upserted SessionRow.id SessionRow.key SessionRow.startedAt SessionRow.endedAt Tables.sessions others
      transaction.own committed delivery.observedAt row := by
  cases h with
  | known existing hmem hfree =>
    refine .known existing _ hmem hfree rfl rfl rfl fun t ht => ?_
    simp only [seenSession, ht, Option.getD_some]
  | new hkey hfree hid => exact .new _ hkey hfree hid rfl rfl

/-- The rows that are committed and those that transactions hold are told apart by id and by key. Other times may have
been given the committed rows than those that they are told to span. -/
def HeldApart (id : ρ → Uuid) (key : ρ → μ) (first : ρ → ℤ) (last : ρ → Option ℤ)
    (draft : Transaction → Draft ρ Uuid ℤ) (rows : List ρ) (told : List (Uuid × ℤ))
    (transactions : List Transaction) : Prop :=
  ∃ seen, (∀ pair ∈ told, pair ∈ seen) ∧ Held id key first last rows seen (drafts draft transactions)

/-- A committed row spans the times that are told of it. -/
theorem HeldApart.spans (h : HeldApart id key first last draft rows told database.transactions) {row : ρ}
    (hrow : row ∈ rows) {time : ℤ} (htold : (id row, time) ∈ told) :
    first row ≤ time ∧ ∃ t, last row = some t ∧ time ≤ t := by
  obtain ⟨seen, hseen, h⟩ := h
  obtain ⟨t, hlast, hgreatest⟩ := (h.extents row hrow).greatest
  exact ⟨(h.extents row hrow).least.2 (hseen _ htold), t, hlast, hgreatest.2 (hseen _ htold)⟩

theorem HeldApart.upsert (h : HeldApart id key first last draft (table database.committed) told database.transactions)
    (hrows : ∀ transaction, (draft transaction).rows = table transaction.own)
    (hget : database.transactions[index]? = some transaction) {time : ℤ} {row : ρ}
    (hrow : Upserted id key first last table (database.others index) transaction.own database.committed time row)
    (hafter : draft after = (draft transaction).put id row time) :
    HeldApart id key first last draft (table database.committed) told (database.transactions.set index after) := by
  obtain ⟨seen, hseen, h⟩ := h
  refine ⟨seen, hseen, ?_⟩
  have hdraft : drafts draft database.transactions index = draft transaction := drafts_get hget
  rw [drafts_set hget, hafter, ← hdraft]
  cases hrow with
  | known existing row hmem hfree hid hkey hfirst hlast =>
    refine h.seeKnown (f := fun _ => row) ?_
      (fun i hi => drafts_others (f := Draft.rows) hrows rfl hfree hi) hid hkey hfirst hlast
    rwa [hdraft, hrows]
  | new row hkey hfree hid hfirst hlast =>
    refine h.seeNew ?_ ?_ ?_ (fun i hi => drafts_others (f := Draft.rows) hrows rfl hfree hi) hfirst hlast
    · intro hmem
      obtain ⟨other, hother, hsame⟩ := List.mem_map.mp hmem
      exact hid database.committed (List.mem_cons_of_mem _ List.mem_cons_self) other hother hsame
    · intro i hmem
      obtain ⟨other, hother, hsame⟩ := List.mem_map.mp hmem
      exact drafts_all (f := Draft.rows) hrows rfl hget hid i other hother hsame
    · rwa [hdraft, hrows]

theorem HeldApart.keep (h : HeldApart id key first last draft rows told database.transactions)
    (hget : database.transactions[index]? = some transaction) (hafter : draft after = draft transaction) :
    HeldApart id key first last draft rows told (database.transactions.set index after) := by
  obtain ⟨seen, hseen, h⟩ := h
  refine ⟨seen, hseen, ?_⟩
  rw [drafts_same hget hafter]
  exact h

theorem HeldApart.begin (h : HeldApart id key first last draft rows told database.transactions)
    (hempty : draft transaction = .empty) :
    HeldApart id key first last draft rows told (database.transactions ++ [transaction]) := by
  obtain ⟨seen, hseen, h⟩ := h
  refine ⟨seen, hseen, ?_⟩
  rw [drafts_concat hempty]
  exact h

/-- All that a commit's transaction has seen is kept, so that nothing is lost of it. -/
theorem HeldApart.commit (h : HeldApart id key first last draft rows told database.transactions)
    (hget : database.transactions[index]? = some transaction) (hempty : draft after = .empty)
    (hkept : ∀ pair ∈ kept, pair ∈ (draft transaction).seen) :
    HeldApart id key first last draft (overlay id (draft transaction).rows rows) (told ++ kept)
      (database.transactions.set index after) := by
  obtain ⟨seen, hseen, h⟩ := h
  have hdraft : drafts draft database.transactions index = draft transaction := drafts_get hget
  refine ⟨seen ++ (draft transaction).seen, fun pair hpair => ?_, ?_⟩
  · obtain hold | hnew := List.mem_append.mp hpair
    · exact List.mem_append_left _ (hseen pair hold)
    · exact List.mem_append_right _ (hkept pair hnew)
  · rw [drafts_set hget, hempty, ← hdraft]
    refine h.commit (fun pair hpair => hpair) fun pair hpair => ?_
    have hmem : pair ∈ seen ++ (drafts draft database.transactions index).seen := List.mem_append_right _ hpair
    exact ⟨⟨pair, hmem, rfl, le_rfl⟩, pair, hmem, rfl, le_rfl⟩

theorem HeldApart.abort (h : HeldApart id key first last draft rows told database.transactions)
    (hget : database.transactions[index]? = some transaction) (hempty : draft after = .empty) :
    HeldApart id key first last draft rows told (database.transactions.set index after) := by
  obtain ⟨seen, hseen, h⟩ := h
  refine ⟨seen, hseen, ?_⟩
  rw [drafts_set hget, hempty]
  exact h.drop index

end Upserts

section Inserts

variable {ρ κ : Type} {key : ρ → κ} {table : Tables → List ρ} {database : Database} {index : ℕ}
  {transaction after : Transaction} {others : List Tables} {committed : Tables}

/-- A statement appends rows to a table of its transaction, each told apart from all that is there. -/
def Appended (table : Tables → List ρ) (key : ρ → κ) (others : List Tables) (committed own own' : Tables) : Prop :=
  ∃ new, table own' = table own ++ new ∧ (new.map key).Nodup ∧
    ∀ row ∈ new, ∀ tables ∈ own :: committed :: others, ∀ other ∈ table tables, key other ≠ key row

theorem Appended.none {own own' : Tables} (h : table own' = table own) : Appended table key others committed own own' :=
  ⟨[], by rw [h, List.append_nil], List.nodup_nil, fun _ hrow => absurd hrow List.not_mem_nil⟩

theorem Appended.one {own own' : Tables} {row : ρ} (h : table own' = table own ++ [row])
    (hrow : ∀ tables ∈ own :: committed :: others, ∀ other ∈ table tables, key other ≠ key row) :
    Appended table key others committed own own' := by
  refine ⟨[row], h, List.nodup_singleton _, fun new hnew => ?_⟩
  obtain rfl := List.mem_singleton.mp hnew
  exact hrow

/-- The rows of a table that are committed and those that transactions have inserted are told apart. -/
def RowsApart (table : Tables → List ρ) (key : ρ → κ) (database : Database) : Prop :=
  Apart key (table database.committed) (drafts (fun transaction => table transaction.own) database.transactions)

theorem Appended.apart (h : RowsApart table key database) (hget : database.transactions[index]? = some transaction)
    (happended : Appended table key (database.others index) database.committed transaction.own after.own) :
    RowsApart table key { database with transactions := database.transactions.set index after } := by
  obtain ⟨new, hafter, hnodup, hfresh⟩ := happended
  have hdraft : drafts (fun transaction => table transaction.own) database.transactions index = table transaction.own :=
    drafts_get hget
  have hothers : ∀ row ∈ new, ∀ i, ∀ other ∈ drafts (fun transaction => table transaction.own) database.transactions i,
      key other ≠ key row := fun row hrow i =>
    drafts_all (f := fun rows => rows) (fun _ => rfl) rfl hget (hfresh row hrow) i
  unfold RowsApart
  rw [drafts_set hget, hafter]
  refine Apart.set h ?_ ?_ ?_
  · rw [List.map_append, List.nodup_append]
    refine ⟨hdraft ▸ h.draftKeys index, hnodup, ?_⟩
    rintro k hk k' hk' rfl
    obtain ⟨old, hold, hsame⟩ := List.mem_map.mp hk
    obtain ⟨row, hrow, rfl⟩ := List.mem_map.mp hk'
    exact hfresh row hrow _ List.mem_cons_self old hold hsame
  · intro row hrow hmem
    obtain hold | hnew := List.mem_append.mp hrow
    · exact h.fresh index row (hdraft.symm ▸ hold) hmem
    · obtain ⟨other, hother, hsame⟩ := List.mem_map.mp hmem
      exact hfresh row hnew _ (List.mem_cons_of_mem _ List.mem_cons_self) other hother hsame
  · intro i hi row hrow other hother
    obtain hold | hnew := List.mem_append.mp hrow
    · exact h.apart index i (Ne.symm hi) row (hdraft.symm ▸ hold) other hother
    · exact (hothers row hnew i other hother).symm

variable [Sha256] [Base64] {before : Database} {action : IngestAction}

/-- A table whose statements only append new rows to it has no two rows alike, whatever is committed in which
order. -/
theorem RowsApart.step (h : RowsApart table key before) (hnone : table {} = [])
    (hover : ∀ own committed : Tables, table (own.over committed) = table committed ++ table own)
    (hexecute : ∀ {others committed transaction statement after},
      Execution others committed transaction statement after →
      Appended table key others committed transaction.own after.own)
    {after : Database} (hstep : before.Stepped action after) : RowsApart table key after := by
  cases hstep with
  | begin request userId maxBatchSize draws begunAt validatedAttachments hvalid huser =>
    unfold RowsApart
    rw [drafts_concat hnone]
    exact h
  | statement index transaction after statement rest hget htodo hexecuted =>
    have happended := hexecute (execution hexecuted)
    exact Appended.apart h hget happended
  | commit index transaction hget hrunning htodo =>
    have hcommit := Apart.commit h index
    unfold RowsApart
    rw [drafts_set hget, hover]
    rw [drafts_get hget] at hcommit
    exact (congrArg (fun rows => Apart key _ (Function.update _ index rows)) hnone).mpr hcommit
  | abort index transaction hget hrunning =>
    unfold RowsApart
    rw [drafts_set hget]
    exact (congrArg (fun rows => Apart key _ (Function.update _ index rows)) hnone).mpr (Apart.drop h index)

end Inserts

section Tables

variable {others : List Tables} {committed : Tables} {before after : Transaction} {statement : Statement}

theorem unused_key {ρ κ : Type} [BEq κ] [LawfulBEq κ] {table : Tables → List ρ} {key : ρ → κ} {own : Tables} {k : κ}
    (h : unused others committed own table (fun row => key row == k) = true) :
    ∀ tables ∈ own :: committed :: others, ∀ row ∈ table tables, key row ≠ k :=
  fun tables htables row hrow => ne_of_beq_false (unused_iff.mp h tables htables row hrow)

variable [Sha256]

theorem Execution.eventsAppended {κ : Type} {key : EventRow → κ} (h : Execution others committed before statement after)
    (hnew : ∀ row, insertEvent others committed before row = some true →
      ∀ tables ∈ before.own :: committed :: others, ∀ other ∈ tables.events, key other ≠ key row) :
    Appended Tables.events key others committed before.own after.own := by
  cases h with
  | inserted deviceId sessionPk delivery hrow => exact .one rfl (hnew _ hrow)
  | _ => exact .none rfl

theorem newFacts_eventPk (eventPk : Uuid) (event : IngestUsageEvent) : (newFacts eventPk event).eventPk = eventPk := by
  unfold newFacts StreamFactsRow.read
  split <;> rfl

theorem Execution.factsAppended (h : Execution others committed before statement after) :
    Appended Tables.streamFacts StreamFactsRow.eventPk others committed before.own after.own := by
  cases h with
  | facts delivery hunused =>
    refine .one rfl fun tables htables other hother => ?_
    rw [newFacts_eventPk]
    exact unused_key hunused tables htables other hother
  | _ => exact .none rfl

theorem Execution.attachmentsAppended {κ : Type} {key : AttachmentRow → κ}
    (h : Execution others committed before statement after) (hnew : ∀ rows,
      insertAttachments others committed before rows = true → (rows.map key).Nodup ∧ ∀ row ∈ rows,
        ∀ tables ∈ before.own :: committed :: others, ∀ other ∈ tables.attachments, key other ≠ key row) :
    Appended Tables.attachments key others committed before.own after.own := by
  cases h with
  | attachments delivery hrows =>
    obtain ⟨hnodup, hfresh⟩ := hnew _ hrows
    exact ⟨_, rfl, hnodup, hfresh⟩
  | _ => exact .none rfl

omit [Sha256] in
theorem insertAttachments_new {rows : List AttachmentRow} (h : insertAttachments others committed before rows = true) :
    ((rows.map AttachmentRow.id).Nodup ∧ (rows.map AttachmentRow.place).Nodup) ∧ ∀ row ∈ rows,
      ∀ tables ∈ before.own :: committed :: others, ∀ other ∈ tables.attachments,
        other.id ≠ row.id ∧ other.place ≠ row.place := by
  simp only [insertAttachments, Bool.and_eq_true, decide_eq_true_eq, List.all_eq_true] at h
  obtain ⟨⟨⟨-, hids⟩, hplaces⟩, hunused⟩ := h
  refine ⟨⟨hids, hplaces⟩, fun row hrow tables htables other hother => ?_⟩
  have hother := unused_iff.mp (hunused row hrow) tables htables other hother
  rw [Bool.or_eq_false_iff] at hother
  exact ⟨ne_of_beq_false hother.1, ne_of_beq_false hother.2⟩

omit [Sha256] in
theorem insertCapture_unshared {row : DiagnosticCapture} (h : insertCapture others committed before row = some true) :
    ∀ tables ∈ before.own :: committed :: others, ∀ other ∈ tables.captures,
      other.id ≠ row.id ∧ other.key ≠ row.key := by
  unfold insertCapture at h
  split at h
  · cases h
  · next hpending =>
    split at h
    · cases h
    · next hknown =>
      split at h
      · next hunused =>
        refine fun tables htables other hother => ⟨unused_key hunused tables htables other hother, fun hsame => ?_⟩
        obtain rfl | rfl | hothers := mem_tables.mp htables
        · exact hknown (List.any_eq_true.mpr ⟨other, List.mem_append_right _ hother, beq_iff_eq.mpr hsame⟩)
        · exact hknown (List.any_eq_true.mpr ⟨other, List.mem_append_left _ hother, beq_iff_eq.mpr hsame⟩)
        · exact ne_of_beq_false (pending_eq_false hpending tables hothers other hother) hsame
      · cases h

theorem Execution.capturesAppended {κ : Type} {key : DiagnosticCapture → κ}
    (h : Execution others committed before statement after)
    (hnew : ∀ row, insertCapture others committed before row = some true →
      ∀ tables ∈ before.own :: committed :: others, ∀ other ∈ tables.captures, key other ≠ key row) :
    Appended Tables.captures key others committed before.own after.own := by
  cases h with
  | capture capture draw first events hrow => exact .one rfl (hnew _ hrow)
  | _ => exact .none rfl

theorem Execution.linksAppended (h : Execution others committed before statement after) :
    Appended Tables.captureEvents (fun link => link) others committed before.own after.own := by
  cases h with
  | links draw events hnodup hunused =>
    refine ⟨_, rfl, by rwa [List.map_id'], fun link hlink => ?_⟩
    exact unused_key (hunused link hlink)
  | _ => exact .none rfl

/-- The devices and sessions are told apart, and span the times that are told of them. -/
structure HierarchyApart (deviceTimes sessionTimes : List (Uuid × ℤ)) (database : Database) : Prop where
  devices : HeldApart DeviceRow.id DeviceRow.key DeviceRow.firstSeenAt (fun row => some row.lastSeenAt)
    Transaction.devices database.committed.devices deviceTimes database.transactions
  sessions : HeldApart SessionRow.id SessionRow.key SessionRow.startedAt SessionRow.endedAt
    Transaction.sessions database.committed.sessions sessionTimes database.transactions

/-- What the unique keys of the tables promise, of the rows that are committed and those that transactions hold. -/
structure KeysApart (database : Database) : Prop extends HierarchyApart [] [] database where
  events : RowsApart Tables.events EventRow.id database
  eventIds : RowsApart Tables.events EventRow.eventId database
  streamFacts : RowsApart Tables.streamFacts StreamFactsRow.eventPk database
  attachments : RowsApart Tables.attachments AttachmentRow.id database
  attachmentPlaces : RowsApart Tables.attachments AttachmentRow.place database
  captures : RowsApart Tables.captures DiagnosticCapture.id database
  captureKeys : RowsApart Tables.captures DiagnosticCapture.key database
  captureEvents : RowsApart Tables.captureEvents (fun link => link) database

section Hierarchy

variable {database : Database} {index : ℕ} {transaction ended : Transaction}
  {deviceTimes sessionTimes deviceTimes' sessionTimes' : List (Uuid × ℤ)}

omit [Sha256] in
theorem HierarchyApart.begin (h : HierarchyApart deviceTimes sessionTimes database)
    (hdevices : transaction.devices = .empty) (hsessions : transaction.sessions = .empty) :
    HierarchyApart deviceTimes sessionTimes
      { database with transactions := database.transactions ++ [transaction] } :=
  ⟨h.devices.begin hdevices, h.sessions.begin hsessions⟩

theorem HierarchyApart.executed {rest : List Statement} (h : HierarchyApart deviceTimes sessionTimes database)
    (hget : database.transactions[index]? = some transaction)
    (hexecution : Execution (database.others index) database.committed { transaction with todo := rest } statement
      after) :
    HierarchyApart deviceTimes sessionTimes
      { database with transactions := database.transactions.set index after } := by
  cases hexecution with
  | device delivery row hrow =>
    exact ⟨h.devices.upsert (fun _ => rfl) hget (upsertDevice_spec hrow).upserted rfl, h.sessions.keep hget rfl⟩
  | session deviceId delivery row hrow =>
    exact ⟨h.devices.keep hget rfl, h.sessions.upsert (fun _ => rfl) hget (upsertSession_spec hrow).upserted rfl⟩
  | _ => exact ⟨h.devices.keep hget rfl, h.sessions.keep hget rfl⟩

omit [Sha256] in
theorem HierarchyApart.commit (h : HierarchyApart deviceTimes sessionTimes database)
    (hget : database.transactions[index]? = some transaction)
    (hdevices : ∀ pair ∈ deviceTimes', pair ∈ transaction.deviceTimes)
    (hsessions : ∀ pair ∈ sessionTimes', pair ∈ transaction.sessionTimes) :
    HierarchyApart (deviceTimes ++ deviceTimes') (sessionTimes ++ sessionTimes')
      { database with
        committed := transaction.own.over database.committed
        transactions := database.transactions.set index transaction.ended } :=
  ⟨h.devices.commit hget rfl hdevices, h.sessions.commit hget rfl hsessions⟩

omit [Sha256] in
theorem HierarchyApart.abort (h : HierarchyApart deviceTimes sessionTimes database)
    (hget : database.transactions[index]? = some transaction) :
    HierarchyApart deviceTimes sessionTimes
      { database with transactions := database.transactions.set index transaction.ended } :=
  ⟨h.devices.abort hget rfl, h.sessions.abort hget rfl⟩

end Hierarchy

theorem KeysApart.hierarchy [Base64] {before after : Database} {action : IngestAction} (h : KeysApart before)
    (hstep : before.Stepped action after) : HierarchyApart [] [] after := by
  have hapart := h.toHierarchyApart
  cases hstep with
  | begin request userId maxBatchSize draws begunAt validatedAttachments hvalid huser => exact hapart.begin rfl rfl
  | statement index transaction after statement rest hget htodo hexecuted =>
    exact hapart.executed hget (execution hexecuted)
  | commit index transaction hget hrunning htodo =>
    exact hapart.commit hget (fun _ hpair => absurd hpair List.not_mem_nil) fun _ hpair =>
      absurd hpair List.not_mem_nil
  | abort index transaction hget hrunning => exact hapart.abort hget

theorem KeysApart.step [Base64] {before after : Database} {action : IngestAction} (h : KeysApart before)
    (hstep : before.Stepped action after) : KeysApart after where
  toHierarchyApart := h.hierarchy hstep
  events := h.events.step rfl (fun _ _ => rfl) (fun hexecution => hexecution.eventsAppended fun _ hrow =>
    (insertEvent_new hrow).1) hstep
  eventIds := h.eventIds.step rfl (fun _ _ => rfl) (fun hexecution => hexecution.eventsAppended fun _ hrow =>
    (insertEvent_new hrow).2) hstep
  streamFacts := h.streamFacts.step rfl (fun _ _ => rfl) Execution.factsAppended hstep
  attachments := h.attachments.step rfl (fun _ _ => rfl) (fun hexecution => hexecution.attachmentsAppended fun _ hrows =>
    ⟨(insertAttachments_new hrows).1.1, fun row hrow tables htables other hother =>
      ((insertAttachments_new hrows).2 row hrow tables htables other hother).1⟩) hstep
  attachmentPlaces := h.attachmentPlaces.step rfl (fun _ _ => rfl) (fun hexecution => hexecution.attachmentsAppended
    fun _ hrows => ⟨(insertAttachments_new hrows).1.2, fun row hrow tables htables other hother =>
      ((insertAttachments_new hrows).2 row hrow tables htables other hother).2⟩) hstep
  captures := h.captures.step rfl (fun _ _ => rfl) (fun hexecution => hexecution.capturesAppended fun _ hrow tables htables
    other hother => (insertCapture_unshared hrow tables htables other hother).1) hstep
  captureKeys := h.captureKeys.step rfl (fun _ _ => rfl) (fun hexecution => hexecution.capturesAppended fun _ hrow tables
    htables other hother => (insertCapture_unshared hrow tables htables other hother).2) hstep
  captureEvents := h.captureEvents.step rfl (fun _ _ => rfl) Execution.linksAppended hstep

end Tables

end AbyssBackend.Postgres
