import Mathlib.Data.List.Basic
import Mathlib.Data.List.Induction
import Mathlib.Data.List.Nodup
import Mathlib.Data.List.Perm.Basic
import AbyssBackend.Library.Tables

namespace Groups

open Tables

variable {κ α ν : Type} [DecidableEq κ]

def pushInto (k : κ) (x : α) : List (κ × List α) → List (κ × List α)
  | [] => [(k, [x])]
  | (j, members) :: groups =>
    if j = k then (j, members ++ [x]) :: groups else (j, members) :: pushInto k x groups

/-- The elements by key, keys and members in order of first appearance. -/
def groupBy (key : α → κ) (xs : List α) : List (κ × List α) :=
  xs.foldl (fun groups x => pushInto (key x) x groups) []

theorem idxOf_eq_of_getElem? {ks : List κ} (hn : ks.Nodup) {k : κ} {i : ℕ} (h : ks[i]? = some k) :
    ks.idxOf k = i := by
  obtain ⟨hi, rfl⟩ := List.getElem?_eq_some_iff.mp h
  exact hn.idxOf_getElem i hi

theorem eq_singleton_iff {α : Type} {xs : List α} {x : α} (hn : xs.Nodup) :
    xs = [x] ↔ ∀ y, y ∈ xs ↔ y = x := by
  rw [← List.perm_singleton, List.perm_ext_iff_of_nodup hn (List.nodup_singleton x)]
  simp

theorem modify_map {β : Type} {f : α → β} {g : β → β} {h : α → α} {xs : List α}
    (hcomm : ∀ x ∈ xs, g (f x) = f (h x)) (i : ℕ) : (xs.map f).modify i g = (xs.modify i h).map f := by
  apply List.ext_getElem?
  intro j
  simp only [List.getElem?_modify, List.getElem?_map]
  cases hx : xs[j]? with
  | none => rfl
  | some x =>
    have hmem := List.mem_of_getElem? hx
    by_cases hij : i = j <;> simp [hij, hcomm x hmem]

theorem modify_concat (f : α → α) (xs : List α) (x : α) :
    (xs ++ [x]).modify xs.length f = xs ++ [f x] := by
  induction xs with
  | nil => rfl
  | cons y xs ih => simp [ih]

theorem getElem?_concat {xs : List α} {x y : α} {i : ℕ} :
    (xs ++ [x])[i]? = some y ↔ xs[i]? = some y ∨ i = xs.length ∧ x = y := by
  rcases Nat.lt_trichotomy i xs.length with hi | rfl | hi
  · simp [List.getElem?_append_left hi, Nat.ne_of_lt hi]
  · simp
  · rw [List.getElem?_eq_none (by simpa using Nat.succ_le_of_lt hi), List.getElem?_eq_none (Nat.le_of_lt hi)]
    simp [Nat.ne_of_gt hi]

theorem groupBy_concat (key : α → κ) (xs : List α) (x : α) :
    groupBy key (xs ++ [x]) = pushInto (key x) x (groupBy key xs) := by
  simp [groupBy]

theorem pushInto_keys (k : κ) (x : α) (groups : List (κ × List α)) :
    (pushInto k x groups).map Prod.fst =
      if k ∈ groups.map Prod.fst then groups.map Prod.fst else groups.map Prod.fst ++ [k] := by
  induction groups with
  | nil => simp [pushInto]
  | cons group groups ih =>
    obtain ⟨j, members⟩ := group
    by_cases hj : j = k
    · simp [pushInto, hj]
    · simp only [pushInto, hj, ↓reduceIte, List.map_cons, ih, List.mem_cons, Ne.symm hj, false_or]
      split <;> simp

theorem keys_nodup (key : α → κ) (xs : List α) : ((groupBy key xs).map Prod.fst).Nodup := by
  induction xs using List.reverseRecOn with
  | nil => simp [groupBy]
  | append_singleton xs x ih =>
    rw [groupBy_concat, pushInto_keys]
    split
    · exact ih
    · next hk =>
      refine List.nodup_append.mpr ⟨ih, by simp, ?_⟩
      intro j hj i hi hji
      rw [List.mem_singleton.mp hi] at hji
      exact hk (hji ▸ hj)

theorem mem_keys {key : α → κ} {xs : List α} {k : κ} :
    k ∈ (groupBy key xs).map Prod.fst ↔ ∃ x ∈ xs, key x = k := by
  induction xs using List.reverseRecOn with
  | nil => simp [groupBy]
  | append_singleton xs x ih =>
    have hexists : (∃ y ∈ xs ++ [x], key y = k) ↔ (∃ y ∈ xs, key y = k) ∨ key x = k := by
      simp only [List.mem_append, List.mem_singleton, or_and_right, exists_or, exists_eq_left]
    rw [groupBy_concat, pushInto_keys, hexists, ← ih]
    split
    · next hk => exact ⟨Or.inl, fun h => h.elim id fun h => h ▸ hk⟩
    · simp [eq_comm]

theorem mem_pushInto {k : κ} {x : α} {groups : List (κ × List α)} (hn : (groups.map Prod.fst).Nodup)
    {j : κ} {members : List α} :
    (j, members) ∈ pushInto k x groups ↔
      if j = k then
        (∃ before, (k, before) ∈ groups ∧ members = before ++ [x]) ∨
          (k ∉ groups.map Prod.fst ∧ members = [x])
      else (j, members) ∈ groups := by
  induction groups with
  | nil => by_cases hj : j = k <;> simp [pushInto, hj]
  | cons group groups ih =>
    obtain ⟨i, inside⟩ := group
    obtain ⟨hi, hn⟩ := List.nodup_cons.mp hn
    have hout : ∀ ys, (i, ys) ∉ groups := fun ys h => hi (List.mem_map.mpr ⟨(i, ys), h, rfl⟩)
    by_cases hik : i = k
    · subst hik
      by_cases hj : j = i
      · subst hj
        simp [pushInto, hout]
      · simp [pushInto, hj]
    · simp only [pushInto, hik, ↓reduceIte, List.mem_cons, ih hn, Prod.mk.injEq, List.map_cons,
        Ne.symm hik, false_and, false_or]
      by_cases hj : j = k
      · simp [hj, Ne.symm hik]
      · simp [hj]

theorem mem_groupBy {key : α → κ} {xs : List α} {k : κ} {members : List α} :
    (k, members) ∈ groupBy key xs ↔
      members = xs.filter (fun x => key x = k) ∧ ∃ x ∈ xs, key x = k := by
  induction xs using List.reverseRecOn generalizing k members with
  | nil => simp [groupBy]
  | append_singleton xs x ih =>
    rw [groupBy_concat, mem_pushInto (keys_nodup key xs), mem_keys]
    by_cases hk : k = key x
    · subst hk
      simp only [↓reduceIte, ih, List.filter_append, List.mem_append, List.mem_singleton]
      constructor
      · rintro (⟨before, ⟨rfl, hex⟩, rfl⟩ | ⟨hnone, rfl⟩)
        · exact ⟨by simp, x, Or.inr rfl, rfl⟩
        · have hempty : xs.filter (fun y => key y = key x) = [] := by
            simpa using fun y hy h => hnone ⟨y, hy, h⟩
          exact ⟨by simp [hempty], x, Or.inr rfl, rfl⟩
      · rintro ⟨rfl, -⟩
        by_cases hex : ∃ y ∈ xs, key y = key x
        · exact Or.inl ⟨_, ⟨rfl, hex⟩, by simp⟩
        · have hempty : xs.filter (fun y => key y = key x) = [] := by
            simpa using fun y hy h => hex ⟨y, hy, h⟩
          exact Or.inr ⟨hex, by simp [hempty]⟩
    · have hk' : ¬ key x = k := fun h => hk h.symm
      simp [hk, hk', ih]

theorem pushInto_perm (k : κ) (x : α) (groups : List (κ × List α)) :
    ((pushInto k x groups).flatMap Prod.snd).Perm (groups.flatMap Prod.snd ++ [x]) := by
  induction groups with
  | nil => simp [pushInto]
  | cons group groups ih =>
    obtain ⟨j, members⟩ := group
    by_cases hj : j = k
    · simp only [pushInto, hj, ↓reduceIte, List.flatMap_cons, List.append_assoc]
      exact List.Perm.append_left _ (List.perm_append_comm)
    · simp only [pushInto, hj, ↓reduceIte, List.flatMap_cons, List.append_assoc]
      exact List.Perm.append_left _ ih

theorem flatMap_perm (key : α → κ) (xs : List α) :
    ((groupBy key xs).flatMap Prod.snd).Perm xs := by
  induction xs using List.reverseRecOn with
  | nil => simp [groupBy]
  | append_singleton xs x ih =>
    rw [groupBy_concat]
    exact (pushInto_perm _ _ _).trans (ih.append_right _)

theorem group_ne_nil {key : α → κ} {xs : List α} {k : κ} {members : List α}
    (h : (k, members) ∈ groupBy key xs) : members ≠ [] := by
  obtain ⟨rfl, x, hx, hk⟩ := mem_groupBy.mp h
  exact List.ne_nil_of_mem (List.mem_filter.mpr ⟨hx, by simpa using hk⟩)

theorem pushInto_of_not_mem {k : κ} (x : α) {groups : List (κ × List α)} (hk : k ∉ groups.map Prod.fst) :
    pushInto k x groups = groups ++ [(k, [x])] := by
  induction groups with
  | nil => rfl
  | cons group groups ih =>
    obtain ⟨j, members⟩ := group
    simp only [List.map_cons, List.mem_cons, not_or] at hk
    simp [pushInto, Ne.symm hk.1, ih hk.2]

theorem pushInto_of_mem {k : κ} (x : α) {groups : List (κ × List α)} (hk : k ∈ groups.map Prod.fst) :
    pushInto k x groups =
      groups.modify ((groups.map Prod.fst).idxOf k) fun group => (group.1, group.2 ++ [x]) := by
  induction groups with
  | nil => simp at hk
  | cons group groups ih =>
    obtain ⟨j, members⟩ := group
    by_cases hj : j = k
    · simp [pushInto, hj]
    · have hmem : k ∈ groups.map Prod.fst := (List.mem_cons.mp hk).resolve_left (Ne.symm hj)
      simp [pushInto, hj, ih hmem, List.idxOf_cons_ne _ hj]

theorem keys_concat (key : α → κ) (xs : List α) (x : α) :
    (groupBy key (xs ++ [x])).map Prod.fst =
      if key x ∈ (groupBy key xs).map Prod.fst then (groupBy key xs).map Prod.fst
      else (groupBy key xs).map Prod.fst ++ [key x] := by
  rw [groupBy_concat, pushInto_keys]

theorem keys_prefix (key : α → κ) (xs ys : List α) :
    (groupBy key xs).map Prod.fst <+: (groupBy key (xs ++ ys)).map Prod.fst := by
  induction ys using List.reverseRecOn with
  | nil => simp
  | append_singleton ys y ih =>
    rw [← List.append_assoc, keys_concat]
    split
    · exact ih
    · exact ih.trans (List.prefix_append _ _)

theorem pushInto_heads (k : κ) (x : α) {groups : List (κ × List α)} (hne : ∀ group ∈ groups, group.2 ≠ []) :
    (pushInto k x groups).map (fun group => group.2.head?) =
      if k ∈ groups.map Prod.fst then groups.map fun group => group.2.head?
      else groups.map (fun group => group.2.head?) ++ [some x] := by
  induction groups with
  | nil => simp [pushInto]
  | cons group groups ih =>
    obtain ⟨j, members⟩ := group
    have hmembers : members ≠ [] := hne (j, members) (by simp)
    by_cases hj : j = k
    · obtain ⟨first, rest, rfl⟩ := List.exists_cons_of_ne_nil hmembers
      simp [pushInto, hj]
    · have hrest := ih fun group hg => hne group (by simp [hg])
      simp only [pushInto, hj, ↓reduceIte, List.map_cons, hrest, List.mem_cons, Ne.symm hj, false_or]
      split <;> simp

theorem heads_sublist (key : α → κ) (xs : List α) :
    ∃ firsts : List α, (groupBy key xs).map (fun group => group.2.head?) = firsts.map some ∧ firsts.Sublist xs := by
  induction xs using List.reverseRecOn with
  | nil => exact ⟨[], rfl, List.Sublist.slnil⟩
  | append_singleton xs x ih =>
    obtain ⟨firsts, hfirsts, hsub⟩ := ih
    rw [groupBy_concat, pushInto_heads _ _ fun group hg => group_ne_nil hg, hfirsts]
    split
    · exact ⟨firsts, rfl, hsub.trans (List.sublist_append_left xs [x])⟩
    · exact ⟨firsts ++ [x], by simp, hsub.append_right [x]⟩

theorem groupBy_length_le (key : α → κ) (xs : List α) : (groupBy key xs).length ≤ xs.length := by
  obtain ⟨firsts, hfirsts, hsub⟩ := heads_sublist key xs
  have hlength := congrArg List.length hfirsts
  rw [List.length_map, List.length_map] at hlength
  exact hlength ▸ hsub.length_le

/-- The map that a loop pushes the values of the elements into, each under its key. -/
def pushed (key : α → κ) (value : α → ν) (xs : List α) : Table κ (List ν) :=
  xs.foldl (fun table x => insert table (key x) ((table (key x)).getD [] ++ [value x])) empty

theorem pushed_apply (key : α → κ) (value : α → ν) (xs : List α) (k : κ) :
    pushed key value xs k =
      if ∃ x ∈ xs, key x = k then some ((xs.filter fun x => key x = k).map value) else none := by
  induction xs using List.reverseRecOn with
  | nil => simp [pushed, empty]
  | append_singleton xs x ih =>
    have hstep : pushed key value (xs ++ [x]) = insert (pushed key value xs) (key x)
        ((pushed key value xs (key x)).getD [] ++ [value x]) := by simp [pushed]
    rw [hstep]
    by_cases hk : key x = k
    · subst hk
      have hexists : ∃ y ∈ xs ++ [x], key y = key x := ⟨x, by simp, rfl⟩
      rw [insert_self, if_pos hexists, ih]
      split
      · simp
      · next hnone =>
        have hempty : xs.filter (fun y => key y = key x) = [] := by
          simpa using fun y hy h => hnone ⟨y, hy, h⟩
        simp [hempty]
    · rw [insert_ne _ _ (Ne.symm hk), ih]
      simp [hk]

theorem pushed_eq (key : α → κ) (value : α → ν) (xs : List α) :
    pushed key value xs = ofPairs ((groupBy key xs).map fun (k, members) => (k, members.map value)) := by
  funext k
  rw [pushed_apply]
  split
  · next hk =>
    have hmem : (k, (xs.filter fun x => key x = k).map value) ∈
        (groupBy key xs).map fun (k, members) => (k, members.map value) :=
      List.mem_map.mpr ⟨(k, xs.filter fun x => key x = k), mem_groupBy.mpr ⟨rfl, hk⟩, rfl⟩
    refine (ofPairs_of_mem hmem fun w hw => ?_).symm
    obtain ⟨⟨j, members⟩, hgroup, hpair⟩ := List.mem_map.mp hw
    obtain ⟨rfl, rfl⟩ := Prod.mk.inj hpair
    rw [(mem_groupBy.mp hgroup).1]
  · next hk =>
    refine (ofPairs_eq_none.mpr fun w hw => hk ?_).symm
    obtain ⟨⟨j, members⟩, hgroup, hpair⟩ := List.mem_map.mp hw
    obtain ⟨rfl, -⟩ := Prod.mk.inj hpair
    exact (mem_groupBy.mp hgroup).2

end Groups
