import AbyssBackend.Streams.BaseRules
import AbyssBackend.Streams.Fixtures

namespace AbyssBackend.Streams

open Conversation Positions Tables Text

theorem findBase_results {exchanges : List Exchange} {index : ℕ} {exchange : Exchange}
    {request : Side RequestFacts} {ids : List String} {byResponseId : Table String ℕ}
    {byId : String → List ℕ} (hx : exchanges[index]? = some exchange)
    (hrequest : exchange.request = some request)
    (hpointer : request.previousResponseId.bind byResponseId = none)
    (hlast : request.facts.lastIdentity = none) (hnew : request.facts.newFrom = 0)
    (hids : request.facts.resultIds = ids) (hne : ids ≠ []) :
    findBase index exchanges byResponseId byId =
      (onlyEmitter ids index byId).map fun base => (base, .resultsOnly) := by
  simp only [findBase, hx, Option.bind_some, hrequest, hpointer, hlast, hnew, hids, lt_irrefl,
    if_false, List.isEmpty_eq_false_iff.mpr hne, Bool.false_eq_true]
  cases onlyEmitter ids index byId <;> rfl

theorem tellApart_unidentified {exchanges : List Exchange} {index : ℕ} {exchange : Exchange}
    {request : Side RequestFacts} (byId : String → List ℕ) (first : List Base)
    (hx : exchanges[index]? = some exchange) (hrequest : exchange.request = some request)
    (hlast : request.facts.lastIdentity = none) : tellApart index exchanges byId first = none := by
  simp [tellApart, hx, hrequest, hlast]

/-- Request `q` names no exchange of the session and holds no model output; its tool results answer
the calls `ids`. -/
structure AnswersCalls [Sha256] (exchanges : List Exchange) (q : ℕ) (ids : List String) : Prop where
  asked : ∃ exchange request conversation, exchanges[q]? = some exchange ∧
    exchange.request = some request ∧ request.facts = RequestFacts.read conversation ∧
    request.previousResponseId.bind (byResponseId exchanges) = none ∧
    (∀ entry ∈ conversationEntries conversation, isModelSide entry = false) ∧
    resultIds (conversationEntries conversation) = ids
  answers : ids ≠ []

def SaidElsewhere (exchanges : List Exchange) (q : ℕ) (ids : List String) (p : ℕ) : Prop :=
  p ≠ q ∧ ∃ id ∈ ids, emits exchanges id p = true

section Bases

variable [Sha256] {exchanges : List Exchange} {q : ℕ} {ids : List String}

theorem AnswersCalls.base_eq (h : AnswersCalls exchanges q ids) :
    (sessionBases exchanges)[q]? =
      some ((onlyEmitter ids q (emitters exchanges)).map fun base => (base, .resultsOnly)) := by
  obtain ⟨exchange, request, conversation, hx, hrequest, hfacts, hpointer, hsides, hids⟩ := h.asked
  have hlt : q < exchanges.length := (List.getElem?_eq_some_iff.mp hx).1
  have hread : request.facts = RequestFacts.ofEntries (conversationEntries conversation) := hfacts
  have hnone : rposition isModelSide (conversationEntries conversation) = none := rposition_eq_none.mpr hsides
  have hlast : request.facts.lastIdentity = none := by simp [hread, RequestFacts.ofEntries, hnone]
  have hnew : request.facts.newFrom = 0 := by simp [hread, RequestFacts.ofEntries, hnone]
  have hresults : request.facts.resultIds = ids := by simp [hread, RequestFacts.ofEntries, hnone, hids]
  have hbase := @findBase_results _ _ _ _ _ _ (emitters exchanges) hx hrequest hpointer hlast hnew hresults h.answers
  by_cases hmany : onlyEmitter ids q (emitters exchanges) = .error .multipleResponses
  · rw [hmany] at hbase ⊢
    rw [sessionBases_of_multiple hlt hbase, tellApart_unidentified _ _ hx hrequest hlast]
    rfl
  · apply sessionBases_of_ne hlt hbase
    cases honly : onlyEmitter ids q (emitters exchanges) with
    | ok base => exact fun heq => by cases heq
    | error reason =>
      rintro heq
      obtain rfl : reason = .multipleResponses := Except.error.inj heq
      exact hmany honly

theorem AnswersCalls.base_iff (h : AnswersCalls exchanges q ids) {p : ℕ} :
    (sessionBases exchanges)[q]? = some (.ok (p, .resultsOnly)) ↔
      SaidElsewhere exchanges q ids p ∧ ∀ k, SaidElsewhere exchanges q ids k → k = p := by
  have honly : (sessionBases exchanges)[q]? = some (.ok (p, .resultsOnly)) ↔
      onlyEmitter ids q (emitters exchanges) = .ok p := by
    rw [h.base_eq]
    cases onlyEmitter ids q (emitters exchanges) <;> simp [Except.map]
  rw [honly, onlyEmitter_ok]
  simp only [mem_emitters]
  constructor
  · rintro ⟨hother, hsaid, hall⟩
    exact ⟨⟨hother, hsaid⟩, fun k ⟨hk, id, hid, hemits⟩ => (hall id hid k hemits).resolve_left hk⟩
  · rintro ⟨⟨hother, hsaid⟩, hall⟩
    refine ⟨hother, hsaid, fun id hid k hemits => ?_⟩
    by_cases hk : k = q
    · exact Or.inl hk
    · exact Or.inr (hall k ⟨hk, id, hid, hemits⟩)

/-- The documented rule holds of a request unless a single other exchange said some of the calls it
answers and the rest of them nobody but the request's own exchange said. -/
theorem AnswersCalls.base_every_iff (h : AnswersCalls exchanges q ids) :
    (∀ p, (sessionBases exchanges)[q]? = some (.ok (p, .resultsOnly)) ↔
        p ≠ q ∧ (∀ id ∈ ids, emits exchanges id p = true) ∧
          ∀ k, k ≠ p → k ≠ q → ∀ id ∈ ids, emits exchanges id k = false) ↔
      ((∃! p, SaidElsewhere exchanges q ids p) → ∀ id ∈ ids, ∃ k, k ≠ q ∧ emits exchanges id k = true) := by
  constructor
  · rintro hrule ⟨p, hsaid, honly⟩ id hid
    obtain ⟨hother, hevery, -⟩ := (hrule p).mp (h.base_iff.mpr ⟨hsaid, honly⟩)
    exact ⟨p, hother, hevery id hid⟩
  · intro hall p
    rw [h.base_iff]
    constructor
    · rintro ⟨hsaid, honly⟩
      refine ⟨hsaid.1, fun id hid => ?_, fun k hkp hkq id hid => ?_⟩
      · obtain ⟨k, hk, hemits⟩ := hall ⟨p, hsaid, honly⟩ id hid
        rwa [← honly k ⟨hk, id, hid, hemits⟩]
      · by_contra hemits
        exact hkp (honly k ⟨hkq, id, hid, Bool.eq_true_of_not_eq_false hemits⟩)
    · rintro ⟨hother, hevery, hno⟩
      obtain ⟨id, hid⟩ := List.exists_mem_of_ne_nil ids h.answers
      refine ⟨⟨hother, id, hid, hevery id hid⟩, fun k ⟨hk, other, hmem, hemits⟩ => ?_⟩
      by_contra hkp
      simp [hno k hkp hk other hmem] at hemits

end Bases

section Session

open Fixtures

local instance halfAnsweredDigest : Sha256 := okDigest

/-- The reply that made the call `b` was not observed. -/
def halfObserved : List StreamEvent :=
  [ask 1 "p" 1000 [user "go"],
    answer 2 "p" 1500 [call "a"],
    ask 3 "q" 2000 [result "a", result "b"]]

theorem halfObserved_answers : AnswersCalls (groupExchanges halfObserved) 1 ["a", "b"] :=
  ⟨⟨_, _, some (write [result "a", result "b"]), rfl, rfl, rfl, rfl,
      by rw [conversationEntries_write]; decide,
    by rw [conversationEntries_write]; decide⟩, by decide⟩

theorem halfObserved_linked :
    AnswersCalls (groupExchanges halfObserved) 1 ["a", "b"] ∧
      (sessionBases (groupExchanges halfObserved))[1]? = some (.ok (0, .resultsOnly)) ∧
      emits (groupExchanges halfObserved) "b" 0 = false :=
  ⟨halfObserved_answers, rfl, by decide⟩

def bothObserved : List StreamEvent :=
  [ask 1 "p" 1000 [user "go"],
    answer 2 "p" 1500 [call "a", call "b"],
    ask 3 "q" 2000 [result "a", result "b"]]

theorem AnswersCalls.base_bothObserved :
    (sessionBases (groupExchanges bothObserved))[1]? = some (.ok (0, .resultsOnly)) := by
  have hanswers : AnswersCalls (groupExchanges bothObserved) 1 ["a", "b"] :=
    ⟨⟨_, _, some (write [result "a", result "b"]), rfl, rfl, rfl, rfl,
      by rw [conversationEntries_write]; decide,
      by rw [conversationEntries_write]; decide⟩, by decide⟩
  refine (hanswers.base_every_iff.mpr (fun _ id hid => ⟨0, by decide, ?_⟩) 0).mpr ⟨by decide, by decide, ?_⟩
  · revert id
    decide
  · intro k hk hq id hid
    by_contra hemits
    have hlt : k < 2 := emits_lt (Bool.eq_true_of_not_eq_false hemits)
    omega

end Session

end AbyssBackend.Streams
