import AbyssBackend.Search.Trigrams
import AbyssBackend.Storage.Kept
import AbyssBackend.Storage.Scan

namespace AbyssBackend.Storage

open Conversation Search Streams Tables Text

variable [CaseMapping] [TrigramIndex] {store : Store} {owner : Uuid} {pattern : Pattern} {text : SearchText}

omit [CaseMapping] in
theorem mem_ownerTexts (h : text ∈ ownerTexts owner pattern store) :
    text ∈ store.searchTexts ∧ text.userId = owner := by
  rw [ownerTexts] at h
  split at h
  · obtain ⟨hmem, huser⟩ := List.mem_filter.mp h
    exact ⟨hmem, beq_iff_eq.mp huser⟩
  · obtain ⟨row, -, h⟩ := List.mem_flatMap.mp h
    obtain ⟨hmem, hboth⟩ := List.mem_filter.mp h
    exact ⟨hmem, beq_iff_eq.mp (Bool.and_eq_true_iff.mp hboth).2⟩

/-- No text of the owner that holds the query is missed. -/
theorem ownerTexts_complete (hindexed : store.searchTextsTrigram = store.searchTexts.map trigramRow)
    (htext : text ∈ store.searchTexts) (huser : text.userId = owner) (hmatch : pattern.isMatch text.text = true) :
    text ∈ ownerTexts owner pattern store := by
  rw [ownerTexts, Pattern.trigramExpression]
  by_cases hempty : pattern.trigrams.isEmpty = true
  · rw [if_pos hempty]
    exact List.mem_filter.mpr ⟨htext, beq_iff_eq.mpr huser⟩
  · rw [if_neg hempty]
    have hne : pattern.trigrams ≠ [] := fun hnil => hempty (List.isEmpty_iff.mpr hnil)
    have hrow : trigramRow text ∈ store.searchTextsTrigram := hindexed ▸ List.mem_map_of_mem htext
    have hindex := TrigramIndex.complete pattern.trigrams (fold text.text) hne (trigrams_inside hmatch)
    refine List.mem_flatMap.mpr ⟨trigramRow text, List.mem_filter.mpr ⟨hrow, hindex⟩, List.mem_filter.mpr ⟨htext, ?_⟩⟩
    simp [trigramRow, huser]

variable [Iteration] {sessionPk : Option Uuid}

omit [CaseMapping] in
theorem mem_candidates : text ∈ candidates owner pattern sessionPk store ↔
    text ∈ ownerTexts owner pattern store ∧ ∀ pk ∈ sessionPk, text.id ∈ sessionTextIds owner pk store := by
  rw [candidates, (Iteration.perm _ _).mem_iff, List.mem_filter]
  cases sessionPk <;> simp

end AbyssBackend.Storage
