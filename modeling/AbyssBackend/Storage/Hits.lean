import AbyssBackend.Storage.Candidates

namespace AbyssBackend.Storage

open Attempts Conversation Search Streams Tables Text

variable [Sha256] [CaseMapping] {store : Store} {event : EventRow}

section Facts

omit [CaseMapping]

theorem RequestFacts.newFrom_nonneg (conversation : Option Value) : 0 ≤ (RequestFacts.read conversation).newFrom := by
  rw [RequestFacts.read, RequestFacts.ofEntries]
  split
  · exact le_rfl
  · exact le_min (Int.natCast_nonneg _) (Int.natCast_nonneg i32Max)

theorem FactsOf.newFrom {row : StreamFactsRow} (h : FactsOf event row) :
    row.newFrom = if event.eventType = UsageEventType.request.asStr then
      some (RequestFacts.read event.conversation).newFrom else none := by
  obtain ⟨_, _, _, rfl⟩ := h
  simp only [StreamFactsRow.read]
  split <;> rfl

theorem readNewFrom_facts {row : StreamFactsRow} (h : FactsOf event row) :
    readNewFrom row.newFrom = .ok (row.newFrom.map Int.toNat) := by
  rw [readNewFrom, h.newFrom]
  split
  · have := RequestFacts.newFrom_nonneg event.conversation
    simp only [Option.any_some, decide_eq_true_eq]
    rw [if_neg (by omega)]
  · rfl

theorem isNew_facts {row : StreamFactsRow} (h : FactsOf event row) {eventType : UsageEventType}
    (htype : event.eventType = eventType.asStr) (piece : Piece) :
    isNew eventType (row.newFrom.map Int.toNat) piece.entryIndex = newPiece event piece := by
  rw [isNew, newPiece, h.newFrom, htype]
  cases eventType with
  | request =>
    rw [if_pos rfl, Option.map_some, Option.getD_some, Bool.eq_iff_iff]
    simp [UsageEventType.asStr]
  | response => rfl

end Facts

omit [Sha256] [CaseMapping] in
theorem readEventType_asStr (eventType : UsageEventType) : readEventType eventType.asStr = .ok eventType := by
  cases eventType <;> rfl

theorem Sound.factsOf_eq (h : Sound store) (hevent : event ∈ store.events) :
    ∃ row, FactsOf event row ∧ factsOf store event.id = [some row] := by
  obtain ⟨row, hrow, hfacts⟩ := Rows.forall₂_mem_left h.streamFacts hevent
  refine ⟨row, hfacts, Rows.leftJoin_single ?_⟩
  have hkey := Rows.filter_key (factsOf_pks h.streamFacts ▸ h.hierarchy.eventPks) hrow
  rw [← hkey, hfacts.eventPk]
  exact List.filter_congr fun other _ => beq_eq_decide ..

structure PieceRef (store : Store) (event : EventRow) (piece : Piece) (ref : SearchRef) : Prop where
  eventPk : ref.eventPk = event.id
  entryIndex : ref.entryIndex = piece.entryIndex
  field : ref.field = piece.field.asStr
  text : ∃ text ∈ store.searchTexts, text.id = ref.textId ∧ text.userId = event.userId ∧ text.text = piece.text

theorem Sound.pieceRefs (h : Sound store) (hdigests : store.DigestsApart) (hevent : event ∈ store.events) :
    List.Forall₂ (PieceRef store event) (pieces event.conversation)
      (store.searchRefs.filter fun ref => ref.eventPk == event.id) := by
  have hrefs := h.eventRefs hevent
  have hfilter : (store.searchRefs.filter fun ref => ref.eventPk == event.id) =
      store.searchRefs.filter fun ref => ref.eventPk = event.id := List.filter_congr fun ref _ => beq_eq_decide ..
  rw [hfilter]
  apply Rows.forall₂_imp_mem hrefs
  intro piece hpiece ref _ hrefers
  obtain ⟨text, htext, hid, howner, hdigest⟩ := hrefers.text
  exact ⟨hrefers.eventPk, hrefers.entryIndex, hrefers.field, text, htext, hid, howner,
    h.text_eq hdigests hevent hpiece htext howner hdigest⟩

/-- The ids in the scope are those of the owner's texts that hold the query. -/
def Holding (store : Store) (owner : Uuid) (query : String) (scope : ℕ → Prop) (ids : List ℕ) : Prop :=
  ∀ text ∈ store.searchTexts, text.userId = owner → scope text.id →
    (text.id ∈ ids ↔ naiveHolds text.text query = true)

omit [Sha256] in
theorem PieceRef.holds {piece : Piece} {ref : SearchRef} (h : PieceRef store event piece ref) {query : String}
    {scope : ℕ → Prop} {ids : List ℕ} (hids : Holding store event.userId query scope ids) (hscope : scope ref.textId) :
    ref.textId ∈ ids ↔ naiveHolds piece.text query = true := by
  obtain ⟨text, htext, hid, howner, heq⟩ := h.text
  rw [← heq, ← hid]
  exact hids text htext howner (hid ▸ hscope)

def pieceHit (event : EventRow) (piece : Piece) (textId : ℕ) : SearchHit where
  sessionPk := event.sessionPk
  sessionId := event.sessionId
  eventPk := event.id
  observedAt := timestampFromMicros event.observedAt
  entryIndex := piece.entryIndex
  field := piece.field
  textId
  new := newPiece event piece

def pieceInSession (event : EventRow) (piece : Piece) (textId : ℕ) : InSessionHit where
  eventPk := event.id
  entryIndex := piece.entryIndex
  field := piece.field
  new := newPiece event piece
  textId
  segment := none

section Rows

variable {piece : Piece} {ref : SearchRef} {row : StreamFactsRow}

omit [Sha256] [CaseMapping] in
theorem readEntryIndex_piece (h : ref.entryIndex = piece.entryIndex) :
    readEntryIndex ref.entryIndex = .ok piece.entryIndex := by
  rw [readEntryIndex, h, if_neg (by omega), Int.toNat_natCast]

omit [Sha256] [CaseMapping] in
theorem readField_piece (h : ref.field = piece.field.asStr) : readField ref.field = .ok piece.field := by
  rw [readField, h, parse_asStr]

omit [CaseMapping] in
theorem hitRow_intoHit (hpk : ref.eventPk = event.id) (hentry : ref.entryIndex = piece.entryIndex)
    (hfield : ref.field = piece.field.asStr) (hfacts : FactsOf event row) {eventType : UsageEventType}
    (htype : event.eventType = eventType.asStr) :
    (hitRow event ref (some row)).intoHit = .ok (pieceHit event piece ref.textId) := by
  simp only [HitRow.intoHit, hitRow, readEntryIndex_piece hentry, htype, readEventType_asStr, Option.bind_some,
    readNewFrom_facts hfacts, readField_piece hfield, bind, Except.bind, pure, Except.pure, isNew_facts hfacts htype,
    hpk, pieceHit]

omit [CaseMapping] in
theorem sessionHitRow_intoHit (href : PieceRef store event piece ref) (hfacts : FactsOf event row)
    {eventType : UsageEventType} (htype : event.eventType = eventType.asStr) :
    (sessionHitRow event ref (some row)).intoHit = .ok (pieceInSession event piece ref.textId) := by
  simp only [SessionHitRow.intoHit, sessionHitRow, readEntryIndex_piece href.entryIndex, htype, readEventType_asStr,
    Option.bind_some, readNewFrom_facts hfacts, readField_piece href.field, bind, Except.bind, pure, Except.pure,
    isNew_facts hfacts htype, href.eventPk, pieceInSession]

end Rows

end AbyssBackend.Storage
