import AbyssBackend.Streams.HeldEntry

namespace AbyssBackend.Streams

open Conversation Positions Text

variable [Sha256]

theorem identities_eq_nil {entry : Entry} (h : isModelSide entry = false) : identities entry = [] := by
  have hroles : ∀ role ∈ modelRoles, entry.role ≠ role := by
    rintro role hr rfl
    simp [isModelSide, hr] at h
  have hcall : entry.role ≠ "tool_call" := hroles _ (by decide)
  have htext : textIdentity entry = none := by
    simp [textIdentity, textRoles, hroles "assistant" (by decide), hroles "reasoning" (by decide)]
  have hitem : item entry = none := by simp [item, h]
  simp [identities, hitem, htext, hcall]

theorem identitiesOf_eq_nil {entries : List Entry} (h : ∀ entry ∈ entries, identities entry = []) :
    identitiesOf entries = [] :=
  List.flatMap_eq_nil_iff.mpr h

theorem isModelSide_of_identities {entry : Entry} (h : identities entry ≠ []) :
    isModelSide entry = true := by
  by_contra hm
  exact h (identities_eq_nil (by simpa using hm))

theorem key_eq_getLast {entry : Entry} (hm : isModelSide entry = true)
    (hcall : entry.callId.isSome → entry.role = "tool_call") :
    key entry = (identities entry).getLast? := by
  cases hc : entry.callId with
  | some call =>
    have hrole := hcall (by simp [hc])
    simp [key, identities, hc, hrole, textIdentity, List.getLast?_append]
  | none =>
    cases hi : entry.itemId with
    | some itemId => simp [key, identities, item, textIdentity, hm, hc, hi]
    | none =>
      have hitem : item entry = none := by simp [item, hi]
      cases ht : textIdentity entry <;> simp [key, identities, hc, hitem, ht]

/-- How a request that resends an answer is read: where its last identity stands in the answer,
and which of the answer's entries trail it. -/
structure ResentFacts (facts : RequestFacts) (request front : List Entry) (held : Entry)
    (back : List Entry) : Prop where
  identified : identities held ≠ []
  unidentified : ∀ entry ∈ back, identities entry = []
  last : facts.lastIdentity = (identities held).getLast?
  previous : ∀ last ∈ facts.lastIdentity,
    facts.previousIdentity = (identitiesOf request).reverse.find? fun identity => identity != last
  trailing : facts.trailing = (back.filter isModelSide).map fun entry => entry.role

/-- The entry of an answer that is held by a request that resends it. -/
theorem resent_held (before : List Entry) {front back new : List Entry} {held : Entry}
    (hanswer : ∀ entry ∈ front ++ held :: back, isModelSide entry = true ∨ entry.role = "tool_result")
    (hheld : identities held ≠ []) (hback : ∀ entry ∈ back, identities entry = [])
    (hnew : ∀ entry ∈ new, isModelSide entry = false) :
    HeldEntry (before ++ (front ++ held :: back) ++ new) (before ++ front) held (back ++ new) := by
  -- the last model-side entry is the held one or one of those after it
  obtain ⟨middle, final, tail, hrun, hfinal, htail⟩ : ∃ middle final tail,
      held :: back = middle ++ final :: tail ∧ isModelSide final = true ∧
        ∀ entry ∈ tail, isModelSide entry = false :=
    exists_last ⟨held, by simp, isModelSide_of_identities hheld⟩
  obtain ⟨rest, hrest, rfl⟩ : ∃ rest, middle ++ [final] = held :: rest ∧ back = rest ++ tail := by
    cases middle with
    | nil =>
      obtain ⟨rfl, rfl⟩ : held = final ∧ back = tail := by simpa using hrun
      exact ⟨[], rfl, rfl⟩
    | cons x middle =>
      obtain ⟨rfl, rfl⟩ : held = x ∧ back = middle ++ final :: tail := by simpa using hrun
      exact ⟨middle ++ [final], rfl, by simp⟩
  obtain ⟨outer, inner, rfl, hstarts, hinner⟩ := exists_start before
  refine ⟨hheld, outer, inner ++ front, rest, tail ++ new, ⟨by simp, ⟨final, ?_, hfinal⟩, ?_, hstarts, ?_⟩,
    by simp, by simp, fun entry hentry => hback entry (by simp [hentry])⟩
  · rw [← hrest]
    simp
  · intro entry hentry
    simp only [List.append_assoc, List.mem_append] at hentry
    obtain hentry | hentry := hentry
    · exact hinner entry hentry
    · apply hanswer
      simp only [List.mem_append, List.mem_cons] at hentry ⊢
      tauto
  · intro entry hentry
    obtain hentry | hentry := List.mem_append.mp hentry
    · exact htail entry hentry
    · exact hnew entry hentry

theorem resent_facts (before : List Entry) {answer new : List Entry}
    (hanswer : ∀ entry ∈ answer, isModelSide entry = true ∨ entry.role = "tool_result")
    (hid : ∃ entry ∈ answer, identities entry ≠ [])
    (hnew : ∀ entry ∈ new, isModelSide entry = false) :
    ∃ front held back, answer = front ++ held :: back ∧
      ResentFacts (RequestFacts.ofEntries (before ++ answer ++ new)) (before ++ answer ++ new)
        front held back := by
  have hsome : ∃ entry ∈ answer, (!(identities entry).isEmpty) = true := by simpa using hid
  obtain ⟨front, held, back, rfl, hheld, hback⟩ := exists_last hsome
  have hheld : identities held ≠ [] := by simpa using hheld
  have hback : ∀ entry ∈ back, identities entry = [] := by simpa using hback
  have hfacts := (resent_held before hanswer hheld hback hnew).facts
  have hids : identitiesOf (before ++ (front ++ held :: back) ++ new) = identitiesOf (before ++ front ++ [held]) := by
    have hnone : identitiesOf (back ++ new) = [] := by
      apply identitiesOf_eq_nil
      intro entry hentry
      obtain hentry | hentry := List.mem_append.mp hentry
      · exact hback entry hentry
      · exact identities_eq_nil (hnew entry hentry)
    have hsplit : before ++ (front ++ held :: back) ++ new = (before ++ front ++ [held]) ++ (back ++ new) := by simp
    rw [hsplit, identitiesOf_append, hnone, List.append_nil]
  refine ⟨front, held, back, rfl, hheld, hback, ?_, fun last hlast => ?_, ?_⟩
  · rw [hfacts.last, getLast?_identitiesOf_concat _ hheld]
  · rw [hfacts.previous, hids, Option.mem_def.mp hlast]
    have hother : (fun identity : String => some identity != some last) = fun identity => identity != last := by
      funext identity
      simp [bne]
    rw [hother, ← List.head?_filter, List.filter_reverse, List.head?_reverse]
  · have hfresh : new.filter isModelSide = [] := by simpa using hnew
    rw [hfacts.trailing, List.filter_append, hfresh, List.append_nil]

end AbyssBackend.Streams
