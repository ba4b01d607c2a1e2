import AbyssBackend.Library.Extents
import Mathlib.Logic.Function.Basic

/-! Rows that hold the first and the last time seen under them, written by drafts that keep to rows of their own. -/

namespace Drafts

open Rows

section Overlay

variable {ρ κ : Type} [DecidableEq κ] {key : ρ → κ} {own rows : List ρ}

/-- The table as the holder of some rows sees it: its own rows in place of those with their keys. -/
def overlay (key : ρ → κ) (own rows : List ρ) : List ρ :=
  rows.filter (fun row => key row ∉ own.map key) ++ own

theorem mem_overlay {row : ρ} : row ∈ overlay key own rows ↔ (row ∈ rows ∧ key row ∉ own.map key) ∨ row ∈ own := by
  simp [overlay]

theorem nodup_overlay (hown : (own.map key).Nodup) (hrows : (rows.map key).Nodup) :
    ((overlay key own rows).map key).Nodup := by
  rw [overlay, List.map_append, List.nodup_append]
  refine ⟨hrows.sublist (List.filter_sublist.map key), hown, ?_⟩
  rintro k hk k' hk' rfl
  obtain ⟨row, hrow, rfl⟩ := List.mem_map.mp hk
  exact of_decide_eq_true (List.mem_filter.mp hrow).2 hk'

theorem keys_overlay {k : κ} : k ∈ (overlay key own rows).map key ↔ k ∈ rows.map key ∨ k ∈ own.map key := by
  rw [overlay, List.map_append, List.mem_append]
  constructor
  · rintro (hk | hk)
    · obtain ⟨row, hrow, rfl⟩ := List.mem_map.mp hk
      exact Or.inl (List.mem_map_of_mem (List.mem_filter.mp hrow).1)
    · exact Or.inr hk
  · rintro (hk | hk)
    · by_cases hown : k ∈ own.map key
      · exact Or.inr hown
      · obtain ⟨row, hrow, rfl⟩ := List.mem_map.mp hk
        exact Or.inl (List.mem_map_of_mem (List.mem_filter.mpr ⟨hrow, decide_eq_true hown⟩))
    · exact Or.inr hk

/-- Rows told apart by another key are so after an overlay that puts rows in place of those they agree with. -/
theorem nodup_overlay_of {μ : Type} {other : ρ → μ} (hown : (own.map other).Nodup) (hrows : (rows.map other).Nodup)
    (hsame : ∀ row ∈ own, ∀ old ∈ rows, other row = other old → key row = key old) :
    ((overlay key own rows).map other).Nodup := by
  rw [overlay, List.map_append, List.nodup_append]
  refine ⟨hrows.sublist (List.filter_sublist.map other), hown, ?_⟩
  rintro k hk k' hk' rfl
  obtain ⟨old, hold, rfl⟩ := List.mem_map.mp hk
  obtain ⟨row, hrow, hkey⟩ := List.mem_map.mp hk'
  obtain ⟨hmem, hfree⟩ := List.mem_filter.mp hold
  apply of_decide_eq_true hfree
  rw [← hsame row hrow old hmem hkey]
  exact List.mem_map_of_mem hrow

/-- Every row is still there after an overlay, or one of its key that agrees with it on what rows of one key share. -/
theorem overlay_kept {μ : Type} {other : ρ → μ}
    (hsame : ∀ row ∈ own, ∀ old ∈ rows, key row = key old → other row = other old) {old : ρ} (hold : old ∈ rows) :
    ∃ row ∈ overlay key own rows, key row = key old ∧ other row = other old := by
  by_cases hkey : key old ∈ own.map key
  · obtain ⟨row, hrow, hid⟩ := List.mem_map.mp hkey
    exact ⟨row, mem_overlay.mpr (Or.inr hrow), hid, hsame row hrow old hold hid⟩
  · exact ⟨old, mem_overlay.mpr (Or.inl ⟨hold, hkey⟩), rfl, rfl⟩

theorem overlay_overlay {new : List ρ} : overlay key (overlay key new own) rows = overlay key new (overlay key own rows) := by
  have hkeys : ∀ k, k ∉ (overlay key new own).map key ↔ k ∉ own.map key ∧ k ∉ new.map key := by
    intro k
    rw [keys_overlay, not_or]
  unfold overlay at hkeys ⊢
  rw [List.filter_append, List.filter_filter, List.append_assoc]
  congr 1
  apply List.filter_congr
  intro row _
  rw [Bool.and_comm, ← Bool.decide_and]
  exact decide_eq_decide.mpr (hkeys (key row))

/-- A new row of a key goes to the end. -/
theorem overlay_new {row : ρ} (h : key row ∉ rows.map key) : overlay key [row] rows = rows ++ [row] := by
  rw [overlay, List.filter_eq_self.mpr]
  intro other hother
  rw [decide_eq_true_iff, List.map_singleton, List.mem_singleton]
  exact fun hsame => h (hsame ▸ List.mem_map_of_mem hother)

/-- A row of a key that is there takes the place of the one there, though not its position. -/
theorem overlay_update {rows' : List ρ} {f : ρ → ρ} {old row : ρ} (hperm : rows.Perm rows') (hrows : (rows.map key).Nodup)
    (hold : old ∈ rows) (hkey : key row = key old) (hrow : f old = row) :
    (overlay key [row] rows).Perm (update key (key old) f rows') := by
  have hone : ([row].map key).Nodup := List.nodup_singleton _
  have hnodup : (overlay key [row] rows).Nodup := (nodup_overlay hone hrows).of_map
  have hrows' : (rows'.map key).Nodup := (hperm.map key).nodup_iff.mp hrows
  have hupdated : ((update key (key old) f rows').map key).Nodup := by
    rw [map_update]
    · exact hrows'
    · intro other hother hsame
      obtain rfl := List.inj_on_of_nodup_map hrows' hother (hperm.mem_iff.mp hold) hsame
      rw [hrow, hkey]
  refine (List.perm_ext_iff_of_nodup hnodup hupdated.of_map).mpr fun other => ?_
  rw [mem_overlay, mem_update, List.map_singleton, List.mem_singleton, List.mem_singleton, hkey, hperm.mem_iff]
  refine or_congr_right ⟨?_, ?_⟩
  · rintro rfl
    exact ⟨old, hperm.mem_iff.mp hold, rfl, hrow⟩
  · rintro ⟨found, hfound, hsame, rfl⟩
    obtain rfl := List.inj_on_of_nodup_map hrows' hfound (hperm.mem_iff.mp hold) hsame
    exact hrow

end Overlay

variable {ρ κ μ τ ι : Type} [DecidableEq κ] [LinearOrder τ]

def timesOf (seen : List (κ × τ)) (k : κ) : Set τ := {t | (k, t) ∈ seen}

/-- The rows a writer has not yet made visible, and the times it gave them. -/
structure Draft (ρ κ τ : Type) where
  rows : List ρ
  seen : List (κ × τ)

def Draft.empty : Draft ρ κ τ := ⟨[], []⟩

instance : Inhabited (Draft ρ κ τ) := ⟨.empty⟩

def Draft.put (id : ρ → κ) (draft : Draft ρ κ τ) (row : ρ) (time : τ) : Draft ρ κ τ :=
  ⟨overlay id [row] draft.rows, draft.seen ++ [(id row, time)]⟩

structure Extent (first : ρ → τ) (last : ρ → Option τ) (times : Set τ) (row : ρ) : Prop where
  least : IsLeast times (first row)
  greatest : ∃ t, last row = some t ∧ IsGreatest times t

/-- The rows and every draft's own rows hold the first and the last time of what was seen under them, no two drafts
hold one row, and a draft has seen nothing but under its own rows. -/
structure Held (id : ρ → κ) (key : ρ → μ) (first : ρ → τ) (last : ρ → Option τ) (rows : List ρ) (seen : List (κ × τ))
    (drafts : ι → Draft ρ κ τ) : Prop where
  ids : (rows.map id).Nodup
  keys : (rows.map key).Nodup
  refs : ∀ k t, (k, t) ∈ seen → k ∈ rows.map id
  extents : ∀ row ∈ rows, Extent first last (timesOf seen (id row)) row
  draftIds : ∀ i, ((drafts i).rows.map id).Nodup
  draftKeys : ∀ i, ((drafts i).rows.map key).Nodup
  draftRefs : ∀ i k t, (k, t) ∈ (drafts i).seen → k ∈ (drafts i).rows.map id
  draftExtents : ∀ i, ∀ row ∈ (drafts i).rows, Extent first last (timesOf (seen ++ (drafts i).seen) (id row)) row
  apart : ∀ i j, i ≠ j → ∀ row ∈ (drafts i).rows, ∀ other ∈ (drafts j).rows, id row ≠ id other ∧ key row ≠ key other
  same : ∀ i, ∀ row ∈ (drafts i).rows, ∀ other ∈ rows, id row = id other ↔ key row = key other

/-- Whatever is lost of what was seen lies between times that are kept. -/
def Bracketed (kept seen : List (κ × τ)) : Prop :=
  ∀ pair ∈ seen, (∃ before ∈ kept, before.1 = pair.1 ∧ before.2 ≤ pair.2) ∧
    ∃ after ∈ kept, after.1 = pair.1 ∧ pair.2 ≤ after.2

instance (kept seen : List (κ × τ)) : Decidable (Bracketed kept seen) :=
  inferInstanceAs (Decidable (∀ pair ∈ seen, (∃ before ∈ kept, before.1 = pair.1 ∧ before.2 ≤ pair.2) ∧
    ∃ after ∈ kept, after.1 = pair.1 ∧ pair.2 ≤ after.2))

section

omit [DecidableEq κ]

omit [LinearOrder τ] in
theorem timesOf_congr {seen seen' : List (κ × τ)} {k : κ} (h : ∀ t, (k, t) ∈ seen ↔ (k, t) ∈ seen') :
    timesOf seen k = timesOf seen' k := by
  ext t
  exact h t

omit [LinearOrder τ] in
theorem timesOf_append_of_not_mem {seen more : List (κ × τ)} {k : κ} (h : ∀ t, (k, t) ∉ more) :
    timesOf (seen ++ more) k = timesOf seen k := by
  apply timesOf_congr
  intro t
  rw [List.mem_append]
  constructor
  · rintro (hseen | hmore)
    · exact hseen
    · exact absurd hmore (h t)
  · exact Or.inl

omit [LinearOrder τ] in
theorem timesOf_concat {seen : List (κ × τ)} {k : κ} {t : τ} :
    timesOf (seen ++ [(k, t)]) k = insert t (timesOf seen k) := by
  ext s
  simp only [timesOf, List.mem_append, List.mem_singleton, Prod.mk.injEq, true_and, Set.mem_ofPred_eq,
    Set.mem_insert_iff]
  exact or_comm

variable {first : ρ → τ} {last : ρ → Option τ} {row : ρ}

/-- A row's extent over all times is its extent over those kept of them, where these reach as far. -/
theorem Extent.bracketed_iff {kept seen : Set τ} (hsub : kept ⊆ seen) (h : Extent first last seen row) :
    Extent first last kept row ↔ ∀ t ∈ seen, (∃ t' ≤ t, t' ∈ kept) ∧ ∃ t', t ≤ t' ∧ t' ∈ kept := by
  obtain ⟨end', hlast, hgreatest⟩ := h.greatest
  constructor
  · intro hkept t ht
    obtain ⟨end'', hlast', hgreatest'⟩ := hkept.greatest
    obtain rfl := Option.some.inj (hlast.symm.trans hlast')
    exact ⟨⟨first row, h.least.2 ht, hkept.least.1⟩, ⟨end', hgreatest.2 ht, hgreatest'.1⟩⟩
  · intro hbetween
    obtain ⟨t, hle, ht⟩ := (hbetween _ h.least.1).1
    obtain ⟨t', hge, ht'⟩ := (hbetween _ hgreatest.1).2
    have hfirst : first row = t := le_antisymm (h.least.2 (hsub ht)) hle
    have hend : end' = t' := le_antisymm hge (hgreatest.2 (hsub ht'))
    refine ⟨⟨hfirst ▸ ht, fun s hs => h.least.2 (hsub hs)⟩, end', hlast, ⟨hend ▸ ht', fun s hs => ?_⟩⟩
    exact hgreatest.2 (hsub hs)

theorem Extent.seen {times : Set τ} {f : ρ → ρ} {t : τ} (h : Extent first last times row)
    (hfirst : first (f row) = min (first row) t) (hlast : ∀ s, last row = some s → last (f row) = some (max s t)) :
    Extent first last (insert t times) (f row) := by
  obtain ⟨s, hs, hgreatest⟩ := h.greatest
  refine ⟨?_, max s t, hlast s hs, ?_⟩
  · rw [hfirst, min_comm]
    exact h.least.insert t
  · rw [max_comm]
    exact hgreatest.insert t

theorem Extent.new {t : τ} (hfirst : first row = t) (hlast : last row = some t) : Extent first last {t} row :=
  ⟨hfirst ▸ isLeast_singleton, t, hlast, isGreatest_singleton⟩

end

namespace Held

variable [DecidableEq ι] {id : ρ → κ} {key : ρ → μ} {first : ρ → τ} {last : ρ → Option τ} {rows : List ρ}
  {seen : List (κ × τ)} {drafts : ι → Draft ρ κ τ}

omit [DecidableEq ι] in
/-- What a draft's holder sees of a row holds the times of all that it has seen. -/
theorem view (h : Held id key first last rows seen drafts) {i : ι} {row : ρ}
    (hrow : row ∈ overlay id (drafts i).rows rows) :
    Extent first last (timesOf (seen ++ (drafts i).seen) (id row)) row := by
  obtain ⟨hmem, hfree⟩ | hown := mem_overlay.mp hrow
  · rw [timesOf_append_of_not_mem fun t ht => hfree (h.draftRefs i _ t ht)]
    exact h.extents row hmem
  · exact h.draftExtents i row hown

/-- A draft writes a row that no other draft holds. -/
theorem put (h : Held id key first last rows seen drafts) {i : ι} {row : ρ} {t : τ}
    (hapart : ∀ j ≠ i, ∀ other ∈ (drafts j).rows, id row ≠ id other ∧ key row ≠ key other)
    (hsame : ∀ other ∈ overlay id (drafts i).rows rows, id row = id other ↔ key row = key other)
    (hextent : Extent first last (timesOf (seen ++ (drafts i).seen ++ [(id row, t)]) (id row)) row) :
    Held id key first last rows seen (Function.update drafts i ((drafts i).put id row t)) := by
  have hself : Function.update drafts i ((drafts i).put id row t) i = (drafts i).put id row t :=
    Function.update_self i _ drafts
  have hother : ∀ {j}, j ≠ i → Function.update drafts i ((drafts i).put id row t) j = drafts j :=
    fun hne => Function.update_of_ne hne _ drafts
  have hrows : ∀ other ∈ ((drafts i).put id row t).rows, other ∈ (drafts i).rows ∧ id other ≠ id row ∨ other = row := by
    intro other hmem
    obtain ⟨hold, hne⟩ | hnew := mem_overlay.mp hmem
    · exact Or.inl ⟨hold, by simpa using hne⟩
    · exact Or.inr (List.mem_singleton.mp hnew)
  have hown : ∀ other ∈ (drafts i).rows, id row = id other ↔ key row = key other :=
    fun other hmem => hsame other (mem_overlay.mpr (Or.inr hmem))
  have hsameRows : ∀ other ∈ rows, id row = id other ↔ key row = key other := by
    intro other hmem
    by_cases hheld : id other ∈ (drafts i).rows.map id
    · obtain ⟨held, hheldMem, hid⟩ := List.mem_map.mp hheld
      rw [← hid, ← (h.same i held hheldMem other hmem).mp hid]
      exact hown held hheldMem
    · exact hsame other (mem_overlay.mpr (Or.inl ⟨hmem, hheld⟩))
  refine ⟨h.ids, h.keys, h.refs, h.extents, ?_, ?_, ?_, ?_, ?_, ?_⟩
  · intro j
    by_cases hj : j = i
    · subst hj
      rw [hself]
      exact nodup_overlay (by simp) (h.draftIds j)
    · exact hother hj ▸ h.draftIds j
  · intro j
    by_cases hj : j = i
    · subst hj
      rw [hself]
      apply nodup_overlay_of (by simp) (h.draftKeys j)
      intro new hnew old hold hkey
      obtain rfl := List.mem_singleton.mp hnew
      exact (hown old hold).mpr hkey
    · exact hother hj ▸ h.draftKeys j
  · intro j k s hs
    by_cases hj : j = i
    · subst hj
      rw [hself] at hs ⊢
      apply keys_overlay.mpr
      obtain hold | hnew := List.mem_append.mp hs
      · exact Or.inl (h.draftRefs j k s hold)
      · obtain ⟨rfl, rfl⟩ := Prod.mk.inj (List.mem_singleton.mp hnew)
        exact Or.inr (List.mem_singleton_self _)
    · rw [hother hj] at hs ⊢
      exact h.draftRefs j k s hs
  · intro j other hmem
    by_cases hj : j = i
    · subst hj
      rw [hself] at hmem ⊢
      obtain ⟨hold, hne⟩ | rfl := hrows other hmem
      · rw [Draft.put, ← List.append_assoc, timesOf_append_of_not_mem (by simp [hne])]
        exact h.draftExtents j other hold
      · rw [Draft.put, ← List.append_assoc]
        exact hextent
    · rw [hother hj] at hmem ⊢
      exact h.draftExtents j other hmem
  · intro j l hne one hone other hmem
    by_cases hj : j = i
    · subst hj
      rw [hself] at hone
      rw [hother (Ne.symm hne)] at hmem
      obtain ⟨hold, -⟩ | rfl := hrows one hone
      · exact h.apart j l hne one hold other hmem
      · exact hapart l (Ne.symm hne) other hmem
    · rw [hother hj] at hone
      by_cases hl : l = i
      · subst hl
        rw [hself] at hmem
        obtain ⟨hold, -⟩ | rfl := hrows other hmem
        · exact h.apart j l hne one hone other hold
        · exact ⟨(hapart j hj one hone).1.symm, (hapart j hj one hone).2.symm⟩
      · rw [hother hl] at hmem
        exact h.apart j l hne one hone other hmem
  · intro j one hone other hmem
    by_cases hj : j = i
    · subst hj
      rw [hself] at hone
      obtain ⟨hold, -⟩ | rfl := hrows one hone
      · exact h.same j one hold other hmem
      · exact hsameRows other hmem
    · rw [hother hj] at hone
      exact h.same j one hone other hmem

/-- A draft writes a row it sees, with the time folded in. -/
theorem seeKnown (h : Held id key first last rows seen drafts) {i : ι} {row : ρ} {t : τ} {f : ρ → ρ}
    (hrow : row ∈ overlay id (drafts i).rows rows)
    (hfree : ∀ j ≠ i, ∀ other ∈ (drafts j).rows, key other ≠ key row)
    (hid : id (f row) = id row) (hkey : key (f row) = key row) (hfirst : first (f row) = min (first row) t)
    (hlast : ∀ s, last row = some s → last (f row) = some (max s t)) :
    Held id key first last rows seen (Function.update drafts i ((drafts i).put id (f row) t)) := by
  apply h.put
  · intro j hj other hother
    rw [hid, hkey]
    refine ⟨?_, (hfree j hj other hother).symm⟩
    obtain ⟨hmem, -⟩ | hown := mem_overlay.mp hrow
    · intro hsame
      exact hfree j hj other hother ((h.same j other hother row hmem).mp hsame.symm)
    · exact (h.apart i j (Ne.symm hj) row hown other hother).1
  · intro other hother
    rw [hid, hkey]
    have hids := nodup_overlay (h.draftIds i) h.ids
    have hkeys : ((overlay id (drafts i).rows rows).map key).Nodup :=
      nodup_overlay_of (h.draftKeys i) h.keys fun one hone old hold => (h.same i one hone old hold).mpr
    constructor
    · intro hsame
      rw [List.inj_on_of_nodup_map hids hrow hother hsame]
    · intro hsame
      rw [List.inj_on_of_nodup_map hkeys hrow hother hsame]
  · rw [hid, timesOf_concat]
    exact (h.view hrow).seen hfirst hlast

theorem seeNew (h : Held id key first last rows seen drafts) {i : ι} {row : ρ} {t : τ}
    (hid : id row ∉ rows.map id) (hdraftIds : ∀ j, id row ∉ (drafts j).rows.map id)
    (hkey : key row ∉ (overlay id (drafts i).rows rows).map key)
    (hfree : ∀ j ≠ i, ∀ other ∈ (drafts j).rows, key other ≠ key row)
    (hfirst : first row = t) (hlast : last row = some t) :
    Held id key first last rows seen (Function.update drafts i ((drafts i).put id row t)) := by
  apply h.put
  · intro j hj other hother
    refine ⟨fun hsame => hdraftIds j ?_, (hfree j hj other hother).symm⟩
    exact hsame ▸ List.mem_map_of_mem hother
  · intro other hother
    constructor
    · intro hsame
      have hmem := List.mem_map_of_mem (f := id) hother
      rw [← hsame, keys_overlay] at hmem
      obtain hmem | hmem := hmem
      · exact absurd hmem hid
      · exact absurd hmem (hdraftIds i)
    · intro hsame
      exact absurd (hsame ▸ List.mem_map_of_mem hother) hkey
  · have hunseen : timesOf (seen ++ (drafts i).seen) (id row) = ∅ := by
      apply Set.eq_empty_of_forall_notMem
      intro s hs
      obtain hseen | hseen := List.mem_append.mp hs
      · exact hid (h.refs _ _ hseen)
      · exact hdraftIds i (h.draftRefs i _ _ hseen)
    rw [timesOf_concat, hunseen, insert_empty_eq]
    exact Extent.new hfirst hlast

omit [DecidableEq κ] in
theorem drop (h : Held id key first last rows seen drafts) (i : ι) :
    Held id key first last rows seen (Function.update drafts i Draft.empty) := by
  have hrows : ∀ j, ∀ row ∈ (Function.update drafts i Draft.empty j).rows,
      j ≠ i ∧ row ∈ (drafts j).rows := by
    intro j row hrow
    by_cases hj : j = i
    · subst hj
      rw [Function.update_self] at hrow
      exact absurd hrow List.not_mem_nil
    · rw [Function.update_of_ne hj] at hrow
      exact ⟨hj, hrow⟩
  refine ⟨h.ids, h.keys, h.refs, h.extents, ?_, ?_, ?_, ?_, ?_, ?_⟩
  · intro j
    by_cases hj : j = i
    · subst hj
      rw [Function.update_self]
      exact List.nodup_nil
    · exact Function.update_of_ne hj _ drafts ▸ h.draftIds j
  · intro j
    by_cases hj : j = i
    · subst hj
      rw [Function.update_self]
      exact List.nodup_nil
    · exact Function.update_of_ne hj _ drafts ▸ h.draftKeys j
  · intro j k t ht
    by_cases hj : j = i
    · subst hj
      rw [Function.update_self] at ht
      exact absurd ht List.not_mem_nil
    · rw [Function.update_of_ne hj] at ht ⊢
      exact h.draftRefs j k t ht
  · intro j row hrow
    obtain ⟨hj, hmem⟩ := hrows j row hrow
    rw [Function.update_of_ne hj]
    exact h.draftExtents j row hmem
  · intro j l hne row hrow other hother
    exact h.apart j l hne row (hrows j row hrow).2 other (hrows l other hother).2
  · intro j row hrow
    exact h.same j row (hrows j row hrow).2

omit [DecidableEq ι] in
/-- A draft's rows hold their times among those kept exactly where these reach as far as all that it saw. -/
theorem bracketed_iff (h : Held id key first last rows seen drafts) {i : ι} {kept : List (κ × τ)}
    (hkept : ∀ pair ∈ kept, pair ∈ (drafts i).seen) :
    (∀ row ∈ overlay id (drafts i).rows rows, Extent first last (timesOf (seen ++ kept) (id row)) row) ↔
      Bracketed (seen ++ kept) (drafts i).seen := by
  have hsub : ∀ k, timesOf (seen ++ kept) k ⊆ timesOf (seen ++ (drafts i).seen) k := by
    intro k t ht
    obtain hseen | hnew := List.mem_append.mp ht
    · exact List.mem_append_left _ hseen
    · exact List.mem_append_right _ (hkept _ hnew)
  constructor
  · rintro hextents ⟨k, t⟩ ht
    obtain ⟨row, hrow, rfl⟩ := List.mem_map.mp (h.draftRefs i k t ht)
    have hview : row ∈ overlay id (drafts i).rows rows := mem_overlay.mpr (Or.inr hrow)
    obtain ⟨⟨s, hle, hs⟩, s', hge, hs'⟩ := ((h.draftExtents i row hrow).bracketed_iff (hsub _)).mp
      (hextents row hview) t (List.mem_append_right _ ht)
    exact ⟨⟨(id row, s), hs, rfl, hle⟩, (id row, s'), hs', rfl, hge⟩
  · intro hbracketed row hrow
    apply ((h.view hrow).bracketed_iff (hsub _)).mpr
    intro t ht
    obtain hseen | hnew := List.mem_append.mp ht
    · exact ⟨⟨t, le_rfl, List.mem_append_left _ hseen⟩, t, le_rfl, List.mem_append_left _ hseen⟩
    · obtain ⟨⟨⟨k, s⟩, hs, rfl, hle⟩, ⟨k', s'⟩, hs', rfl, hge⟩ := hbracketed _ hnew
      exact ⟨⟨s, hle, hs⟩, s', hge, hs'⟩

theorem commit (h : Held id key first last rows seen drafts) {i : ι} {kept : List (κ × τ)}
    (hkept : ∀ pair ∈ kept, pair ∈ (drafts i).seen) (hbracketed : Bracketed (seen ++ kept) (drafts i).seen) :
    Held id key first last (overlay id (drafts i).rows rows) (seen ++ kept)
      (Function.update drafts i Draft.empty) := by
  have hrows : ∀ j, ∀ row ∈ (Function.update drafts i Draft.empty j).rows, j ≠ i ∧ row ∈ (drafts j).rows := by
    intro j row hrow
    by_cases hj : j = i
    · subst hj
      rw [Function.update_self] at hrow
      exact absurd hrow List.not_mem_nil
    · rw [Function.update_of_ne hj] at hrow
      exact ⟨hj, hrow⟩
  have hdrop := h.drop i
  refine ⟨nodup_overlay (h.draftIds i) h.ids, ?_, ?_, (h.bracketed_iff hkept).mpr hbracketed, hdrop.draftIds,
    hdrop.draftKeys, hdrop.draftRefs, ?_, hdrop.apart, ?_⟩
  · exact nodup_overlay_of (h.draftKeys i) h.keys fun row hrow old hold => (h.same i row hrow old hold).mpr
  · intro k t ht
    apply keys_overlay.mpr
    obtain hseen | hnew := List.mem_append.mp ht
    · exact Or.inl (h.refs k t hseen)
    · exact Or.inr (h.draftRefs i k t (hkept _ hnew))
  · intro j row hrow
    obtain ⟨hj, hmem⟩ := hrows j row hrow
    have htimes : timesOf (seen ++ kept ++ (drafts j).seen) (id row) = timesOf (seen ++ (drafts j).seen) (id row) := by
      apply timesOf_congr
      intro t
      simp only [List.mem_append]
      constructor
      · rintro ((hseen | hnew) | hown)
        · exact Or.inl hseen
        · obtain ⟨other, hother, hid⟩ := List.mem_map.mp (h.draftRefs i _ t (hkept _ hnew))
          exact absurd hid.symm (h.apart j i hj row hmem other hother).1
        · exact Or.inr hown
      · rintro (hseen | hown)
        · exact Or.inl (Or.inl hseen)
        · exact Or.inr hown
    rw [Function.update_of_ne hj, htimes]
    exact h.draftExtents j row hmem
  · intro j row hrow other hother
    obtain ⟨hj, hmem⟩ := hrows j row hrow
    obtain ⟨hold, -⟩ | hown := mem_overlay.mp hother
    · exact h.same j row hmem other hold
    · obtain ⟨hid, hkey⟩ := h.apart j i hj row hmem other hown
      exact ⟨fun hsame => absurd hsame hid, fun hsame => absurd hsame hkey⟩

end Held

/-- Rows of unlike keys, and drafts of more of them, no two alike. -/
structure Apart (key : ρ → κ) (rows : List ρ) (drafts : ι → List ρ) : Prop where
  keys : (rows.map key).Nodup
  draftKeys : ∀ i, ((drafts i).map key).Nodup
  fresh : ∀ i, ∀ row ∈ drafts i, key row ∉ rows.map key
  apart : ∀ i j, i ≠ j → ∀ row ∈ drafts i, ∀ other ∈ drafts j, key row ≠ key other

namespace Apart

variable {key : ρ → κ} {rows rows' more : List ρ} {drafts : ι → List ρ}

omit [DecidableEq κ] in
theorem congr (h : Apart key rows drafts) (hkeys : rows'.map key = rows.map key) : Apart key rows' drafts :=
  ⟨hkeys ▸ h.keys, h.draftKeys, fun i row hrow => hkeys ▸ h.fresh i row hrow, h.apart⟩

omit [DecidableEq κ] in
theorem append (h : Apart key rows drafts) (hmore : (more.map key).Nodup)
    (hrows : ∀ row ∈ more, key row ∉ rows.map key) (hdrafts : ∀ row ∈ more, ∀ i, key row ∉ (drafts i).map key) :
    Apart key (rows ++ more) drafts := by
  refine ⟨?_, h.draftKeys, fun i row hrow hmem => ?_, h.apart⟩
  · rw [List.map_append, List.nodup_append]
    refine ⟨h.keys, hmore, ?_⟩
    rintro k hk k' hk' rfl
    obtain ⟨row, hrow, rfl⟩ := List.mem_map.mp hk'
    exact hrows row hrow hk
  · rw [List.map_append] at hmem
    obtain hold | hnew := List.mem_append.mp hmem
    · exact h.fresh i row hrow hold
    · obtain ⟨other, hother, hsame⟩ := List.mem_map.mp hnew
      exact hdrafts other hother i (hsame ▸ List.mem_map_of_mem hrow)

variable [DecidableEq ι]

omit [DecidableEq κ] in
theorem set (h : Apart key rows drafts) {i : ι} {own : List ρ} (hown : (own.map key).Nodup)
    (hfresh : ∀ row ∈ own, key row ∉ rows.map key)
    (hapart : ∀ j ≠ i, ∀ row ∈ own, ∀ other ∈ drafts j, key row ≠ key other) :
    Apart key rows (Function.update drafts i own) := by
  refine ⟨h.keys, fun j => ?_, fun j row hrow => ?_, fun j k hne row hrow other hother => ?_⟩
  · by_cases hj : j = i
    · subst hj
      rwa [Function.update_self]
    · exact Function.update_of_ne hj own drafts ▸ h.draftKeys j
  · by_cases hj : j = i
    · subst hj
      rw [Function.update_self] at hrow
      exact hfresh row hrow
    · rw [Function.update_of_ne hj] at hrow
      exact h.fresh j row hrow
  · by_cases hj : j = i
    · subst hj
      rw [Function.update_self] at hrow
      rw [Function.update_of_ne (Ne.symm hne)] at hother
      exact hapart k (Ne.symm hne) row hrow other hother
    · rw [Function.update_of_ne hj] at hrow
      by_cases hk : k = i
      · subst hk
        rw [Function.update_self] at hother
        exact (hapart j hj other hother row hrow).symm
      · rw [Function.update_of_ne hk] at hother
        exact h.apart j k hne row hrow other hother

omit [DecidableEq κ] in
theorem write (h : Apart key rows drafts) {i : ι} {row : ρ} (hrow : key row ∉ rows.map key)
    (hdrafts : ∀ j, key row ∉ (drafts j).map key) : Apart key rows (Function.update drafts i (drafts i ++ [row])) := by
  apply h.set (Rows.nodup_concat (h.draftKeys i) (hdrafts i))
  · intro own hown
    obtain hold | hnew := List.mem_append.mp hown
    · exact h.fresh i own hold
    · obtain rfl := List.mem_singleton.mp hnew
      exact hrow
  · intro j hj own hown other hother
    obtain hold | hnew := List.mem_append.mp hown
    · exact h.apart i j (Ne.symm hj) own hold other hother
    · obtain rfl := List.mem_singleton.mp hnew
      intro hsame
      exact hdrafts j (hsame ▸ List.mem_map_of_mem hother)

omit [DecidableEq κ] in
theorem drop (h : Apart key rows drafts) (i : ι) : Apart key rows (Function.update drafts i []) :=
  h.set List.nodup_nil (fun _ hrow => absurd hrow List.not_mem_nil)
    fun _ _ _ hrow => absurd hrow List.not_mem_nil

omit [DecidableEq κ] in
theorem commit (h : Apart key rows drafts) (i : ι) :
    Apart key (rows ++ drafts i) (Function.update drafts i []) := by
  apply (h.drop i).append (h.draftKeys i) (h.fresh i)
  intro row hrow j hmem
  obtain ⟨other, hother, hsame⟩ := List.mem_map.mp hmem
  by_cases hj : j = i
  · subst hj
    rw [Function.update_self] at hother
    exact absurd hother List.not_mem_nil
  · rw [Function.update_of_ne hj] at hother
    exact h.apart j i hj other hother row hrow hsame

end Apart

end Drafts
