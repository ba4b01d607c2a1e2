import Mathlib.Data.List.Forall2
import Mathlib.Data.List.Nodup
import Mathlib.Data.List.Perm.Basic

/-! Tables as lists of rows that a key tells apart. -/

namespace Rows

section Taken

variable {α κ μ : Type} [BEq κ] [LawfulBEq κ] [BEq μ] [LawfulBEq μ]

theorem any_key {key : α → κ} {k : κ} {rows : List α} :
    (rows.any fun row => key row == k) = true ↔ k ∈ rows.map key := by
  simp [List.any_eq_true]

theorem free_iff {key : α → κ} {k : κ} {rows : List α} :
    (rows.any fun row => key row == k) = false ↔ k ∉ rows.map key := by
  rw [← any_key, Bool.not_eq_true]

theorem free_both_iff {key : α → κ} {other : α → μ} {k : κ} {m : μ} {rows : List α} :
    (rows.any fun row => key row == k || other row == m) = false ↔ k ∉ rows.map key ∧ m ∉ rows.map other := by
  simp only [← free_iff, List.any_eq_false, Bool.or_eq_true, not_or, forall_and]

end Taken

variable {α β κ : Type} [DecidableEq κ]

def find (key : α → κ) (k : κ) (rows : List α) : Option α :=
  rows.find? fun row => key row = k

def update (key : α → κ) (k : κ) (f : α → α) (rows : List α) : List α :=
  rows.map fun row => if key row = k then f row else row

def leftJoin (on : α → Bool) (rows : List α) : List (Option α) :=
  if rows.any on then (rows.filter on).map some else [none]

theorem find_mem {key : α → κ} {k : κ} {rows : List α} {row : α} (h : find key k rows = some row) :
    row ∈ rows ∧ key row = k :=
  ⟨List.mem_of_find?_eq_some h, by simpa using List.find?_some (show List.find? _ _ = _ from h)⟩

theorem find_none {key : α → κ} {k : κ} {rows : List α} (h : find key k rows = none) : k ∉ rows.map key := by
  intro hmem
  obtain ⟨row, hrow, hkey⟩ := List.mem_map.mp hmem
  exact List.find?_eq_none.mp h row hrow (decide_eq_true hkey)

theorem find_of_mem {key : α → κ} {rows : List α} (hkeys : (rows.map key).Nodup) {row : α} (h : row ∈ rows) :
    find key (key row) rows = some row := by
  have hsome : (find key (key row) rows).isSome := List.find?_isSome.mpr ⟨row, h, decide_eq_true rfl⟩
  obtain ⟨other, hother⟩ := Option.isSome_iff_exists.mp hsome
  obtain ⟨hmem, hkey⟩ := find_mem hother
  rw [hother, List.inj_on_of_nodup_map hkeys hmem h hkey]

omit [DecidableEq κ] in
/-- A search that only rows of one key answer finds the row of that key. -/
theorem find?_key {key : α → κ} {rows : List α} (hkeys : (rows.map key).Nodup) {row : α} (h : row ∈ rows)
    {p : α → Bool} (hp : p row = true) (hkey : ∀ other ∈ rows, p other = true → key other = key row) :
    rows.find? p = some row := by
  have hsome : (rows.find? p).isSome := List.find?_isSome.mpr ⟨row, h, hp⟩
  obtain ⟨other, hother⟩ := Option.isSome_iff_exists.mp hsome
  have hmem := List.mem_of_find?_eq_some hother
  rw [hother, List.inj_on_of_nodup_map hkeys hmem h (hkey other hmem (List.find?_some hother))]

theorem find_perm {key : α → κ} {rows rows' : List α} (h : rows.Perm rows') (hkeys : (rows.map key).Nodup) (k : κ) :
    find key k rows = find key k rows' := by
  have hkeys' : (rows'.map key).Nodup := (h.map key).nodup_iff.mp hkeys
  cases hfound : find key k rows with
  | some row =>
    obtain ⟨hmem, rfl⟩ := find_mem hfound
    exact (find_of_mem hkeys' (h.mem_iff.mp hmem)).symm
  | none =>
    refine (List.find?_eq_none.mpr fun row hrow hkey => find_none hfound ?_).symm
    exact List.mem_map.mpr ⟨row, h.mem_iff.mpr hrow, of_decide_eq_true hkey⟩

theorem mem_update {key : α → κ} {k : κ} {f : α → α} {rows : List α} {row : α} :
    row ∈ update key k f rows ↔ (row ∈ rows ∧ key row ≠ k) ∨ ∃ old ∈ rows, key old = k ∧ f old = row := by
  rw [update, List.mem_map]
  constructor
  · rintro ⟨old, hold, rfl⟩
    by_cases hkey : key old = k
    · rw [if_pos hkey]
      exact Or.inr ⟨old, hold, hkey, rfl⟩
    · rw [if_neg hkey]
      exact Or.inl ⟨hold, hkey⟩
  · rintro (⟨hmem, hkey⟩ | ⟨old, hold, hkey, rfl⟩)
    · exact ⟨row, hmem, if_neg hkey⟩
    · exact ⟨old, hold, if_pos hkey⟩

theorem map_update {key : α → κ} {k : κ} {f : α → α} {g : α → β} {rows : List α}
    (hsame : ∀ row ∈ rows, key row = k → g (f row) = g row) : (update key k f rows).map g = rows.map g := by
  rw [update, List.map_map]
  apply List.map_congr_left
  intro row hrow
  by_cases hkey : key row = k
  · simp [hkey, hsame row hrow hkey]
  · simp [hkey]

theorem nodup_update {key : α → κ} {k : κ} {f : α → α} {g : α → β} {rows : List α}
    (hsame : ∀ row, g (f row) = g row) (h : (rows.map g).Nodup) : ((update key k f rows).map g).Nodup := by
  rwa [map_update fun row _ _ => hsame row]

omit [DecidableEq κ] in
theorem nodup_concat {key : α → κ} {rows : List α} {row : α} (hkeys : (rows.map key).Nodup)
    (hnew : key row ∉ rows.map key) : ((rows ++ [row]).map key).Nodup := by
  rw [List.map_append, List.map_singleton, List.nodup_append]
  refine ⟨hkeys, List.nodup_singleton _, ?_⟩
  rintro k hk k' hk' rfl
  exact hnew (List.mem_singleton.mp hk' ▸ hk)

omit [DecidableEq κ] in
theorem nodup_before {key : α → κ} {done rest : List α} {row : α} (h : ((done ++ row :: rest).map key).Nodup) :
    key row ∉ done.map key := by
  rw [List.map_append, List.map_cons] at h
  exact fun hmem => (List.nodup_append.mp h).2.2 _ hmem _ (List.mem_cons_self ..) rfl

theorem filter_key {key : α → κ} {rows : List α} (hkeys : (rows.map key).Nodup) {row : α} (h : row ∈ rows) :
    (rows.filter fun other => key other = key row) = [row] := by
  have hnodup : (rows.filter fun other => key other = key row).Nodup := hkeys.of_map.filter _
  refine List.perm_singleton.mp ((List.perm_ext_iff_of_nodup hnodup (List.nodup_singleton row)).mpr fun other => ?_)
  rw [List.mem_filter, decide_eq_true_eq, List.mem_singleton]
  constructor
  · rintro ⟨hother, hkey⟩
    exact List.inj_on_of_nodup_map hkeys hother h hkey
  · rintro rfl
    exact ⟨h, rfl⟩

omit [DecidableEq κ] in
theorem filter_length_le_one {key : α → κ} {rows : List α} (hkeys : (rows.map key).Nodup) {p : α → Bool} {k : κ}
    (hsame : ∀ row ∈ rows, p row = true → key row = k) : (rows.filter p).length ≤ 1 := by
  have hnodup : ((rows.filter p).map key).Nodup := hkeys.sublist (List.filter_sublist.map key)
  have hall : ∀ other ∈ (rows.filter p).map key, other = k := by
    intro other hother
    obtain ⟨row, hrow, rfl⟩ := List.mem_map.mp hother
    exact hsame row (List.mem_filter.mp hrow).1 (List.mem_filter.mp hrow).2
  rw [List.eq_replicate_of_mem hall, List.nodup_replicate, List.length_map] at hnodup
  exact hnodup

omit [DecidableEq κ] in
theorem forall₂_mem_right {R : α → β → Prop} {xs : List α} {ys : List β} (h : List.Forall₂ R xs ys) {y : β}
    (hy : y ∈ ys) : ∃ x ∈ xs, R x y := by
  induction h with
  | nil => exact absurd hy List.not_mem_nil
  | @cons first other xs ys hfirst _ ih =>
    obtain rfl | hlater := List.mem_cons.mp hy
    · exact ⟨first, List.mem_cons_self .., hfirst⟩
    · obtain ⟨x, hx, hR⟩ := ih hlater
      exact ⟨x, List.mem_cons_of_mem _ hx, hR⟩

omit [DecidableEq κ] in
theorem forall₂_mem_left {R : α → β → Prop} {xs : List α} {ys : List β} (h : List.Forall₂ R xs ys) {x : α}
    (hx : x ∈ xs) : ∃ y ∈ ys, R x y :=
  forall₂_mem_right h.flip hx

omit [DecidableEq κ] in
theorem forall₂_exists {R : α → β → Prop} {xs : List α} (h : ∀ x ∈ xs, ∃ y, R x y) : ∃ ys, List.Forall₂ R xs ys := by
  induction xs with
  | nil => exact ⟨[], .nil⟩
  | cons x xs ih =>
    obtain ⟨y, hy⟩ := h x List.mem_cons_self
    obtain ⟨ys, hys⟩ := ih fun x hx => h x (List.mem_cons_of_mem _ hx)
    exact ⟨y :: ys, .cons hy hys⟩

omit [DecidableEq κ] in
theorem forall₂_imp_mem {R S : α → β → Prop} {xs : List α} {ys : List β} (h : List.Forall₂ R xs ys)
    (himp : ∀ x ∈ xs, ∀ y ∈ ys, R x y → S x y) : List.Forall₂ S xs ys := by
  induction h with
  | nil => exact .nil
  | cons hfirst _ ih =>
    refine .cons (himp _ (List.mem_cons_self ..) _ (List.mem_cons_self ..) hfirst) (ih fun x hx y hy => ?_)
    exact himp x (List.mem_cons_of_mem _ hx) y (List.mem_cons_of_mem _ hy)

omit [DecidableEq κ] in
theorem forall₂_map_eq {γ : Type} {R : α → β → Prop} {f : α → γ} {g : β → γ} {xs : List α} {ys : List β}
    (h : List.Forall₂ R xs ys) (hsame : ∀ x ∈ xs, ∀ y ∈ ys, R x y → f x = g y) : xs.map f = ys.map g := by
  rw [← List.forall₂_eq_eq_eq, List.forall₂_map_left_iff, List.forall₂_map_right_iff]
  exact forall₂_imp_mem h hsame

omit [DecidableEq κ] in
theorem forall₂_filter {R : α → β → Prop} {p : α → Bool} {q : β → Bool} {xs : List α} {ys : List β}
    (h : List.Forall₂ R xs ys) (hsame : ∀ x y, R x y → p x = q y) : List.Forall₂ R (xs.filter p) (ys.filter q) := by
  induction h with
  | nil => exact .nil
  | @cons x y xs ys hfirst _ ih =>
    rw [List.filter_cons, List.filter_cons, hsame x y hfirst]
    split
    · exact .cons hfirst ih
    · exact ih

omit [DecidableEq κ] in
theorem forall₂_flatMap {γ : Type} {R : α → β → Prop} {f : γ → List α} {g : γ → List β} {xs : List γ}
    (h : ∀ x ∈ xs, List.Forall₂ R (f x) (g x)) : List.Forall₂ R (xs.flatMap f) (xs.flatMap g) := by
  induction xs with
  | nil => exact .nil
  | cons x xs ih =>
    rw [List.flatMap_cons, List.flatMap_cons]
    exact List.rel_append (h x (List.mem_cons_self ..)) (ih fun y hy => h y (List.mem_cons_of_mem _ hy))

omit [DecidableEq κ] in
theorem leftJoin_ne_nil (on : α → Bool) (rows : List α) : leftJoin on rows ≠ [] := by
  unfold leftJoin
  split
  · next hany =>
    obtain ⟨row, hrow, hon⟩ := List.any_eq_true.mp hany
    exact List.ne_nil_of_mem (List.mem_map_of_mem (List.mem_filter.mpr ⟨hrow, hon⟩))
  · exact List.cons_ne_nil _ _

omit [DecidableEq κ] in
/-- A filter on the rows that others are joined to may come before or after the join. -/
theorem filter_joined {β : Type} (p : α → Bool) (join : α → List β) (rows : List α) :
    (rows.flatMap fun row => (join row).map (row, ·)).filter (fun pair => p pair.1) =
      (rows.filter p).flatMap fun row => (join row).map (row, ·) := by
  induction rows with
  | nil => rfl
  | cons row rows ih =>
    rw [List.flatMap_cons, List.filter_append, ih, List.filter_map]
    cases hp : p row with
    | true => simp [Function.comp_def, hp]
    | false => simp [Function.comp_def, hp]

omit [DecidableEq κ] in
theorem leftJoin_single {on : α → Bool} {rows : List α} {row : α} (h : rows.filter on = [row]) :
    leftJoin on rows = [some row] := by
  have hany : rows.any on = true := by
    have hmem : row ∈ rows.filter on := h ▸ List.mem_singleton_self row
    exact List.any_eq_true.mpr ⟨row, List.mem_filter.mp hmem⟩
  rw [leftJoin, if_pos hany, h, List.map_singleton]

omit [DecidableEq κ] in
theorem leftJoin_one {on : α → Bool} {rows : List α} (h : (rows.filter on).length ≤ 1) :
    ∃ row, leftJoin on rows = [row] := by
  unfold leftJoin
  split
  · next hany =>
    obtain ⟨row, hrow, hon⟩ := List.any_eq_true.mp hany
    have hmem : row ∈ rows.filter on := List.mem_filter.mpr ⟨hrow, hon⟩
    obtain ⟨only, honly⟩ := List.length_eq_one_iff.mp (Nat.le_antisymm h (List.length_pos_of_mem hmem))
    exact ⟨some only, by rw [honly, List.map_singleton]⟩
  · exact ⟨none, rfl⟩

omit [DecidableEq κ] in
theorem leftJoin_find {on : α → Bool} {rows : List α} (h : (rows.filter on).length ≤ 1) :
    leftJoin on rows = [rows.find? on] := by
  unfold leftJoin
  rw [← List.head?_filter]
  match hrows : rows.filter on, h with
  | [], _ =>
    have hnone : rows.any on = false := by
      rw [List.any_eq_false]
      exact fun row hrow hon => List.filter_eq_nil_iff.mp hrows row hrow hon
    rw [hnone]
    rfl
  | [row], _ =>
    have hany : rows.any on = true := by
      have hmem : row ∈ rows.filter on := hrows ▸ List.mem_singleton_self row
      exact List.any_eq_true.mpr ⟨row, List.mem_filter.mp hmem⟩
    rw [hany]
    rfl

/-- Where every item has a group of the rows that refer to it, the rows that refer to an item are its group. -/
theorem filter_flatten {key : α → κ} {ref : β → κ} {R : α → List β → Prop} {items : List α}
    {groups : List (List β)} (h : List.Forall₂ R items groups)
    (hrefs : ∀ item group, R item group → ∀ row ∈ group, ref row = key item) (hkeys : (items.map key).Nodup)
    {item : α} (hitem : item ∈ items) :
    ∃ group, R item group ∧ (groups.flatten.filter fun row => ref row = key item) = group := by
  induction h with
  | nil => exact absurd hitem List.not_mem_nil
  | @cons first group items groups hfirst hrest ih =>
    rw [List.map_cons, List.nodup_cons] at hkeys
    rw [List.flatten_cons, List.filter_append]
    obtain rfl | hlater := List.mem_cons.mp hitem
    · have hown : (group.filter fun row => ref row = key item) = group :=
        List.filter_eq_self.mpr fun row hrow => decide_eq_true (hrefs item group hfirst row hrow)
      have hnone : (groups.flatten.filter fun row => ref row = key item) = [] := by
        refine List.filter_eq_nil_iff.mpr fun row hrow hsame => hkeys.1 ?_
        obtain ⟨other, hother, hrow⟩ := List.mem_flatten.mp hrow
        obtain ⟨owner, howner, hR⟩ := forall₂_mem_right hrest hother
        rw [← of_decide_eq_true hsame, hrefs owner other hR row hrow]
        exact List.mem_map_of_mem howner
      exact ⟨group, hfirst, by rw [hown, hnone, List.append_nil]⟩
    · have hnone : (group.filter fun row => ref row = key item) = [] := by
        refine List.filter_eq_nil_iff.mpr fun row hrow hsame => hkeys.1 ?_
        rw [← hrefs first group hfirst row hrow, of_decide_eq_true hsame]
        exact List.mem_map_of_mem hlater
      obtain ⟨own, hR, hown⟩ := ih hkeys.2 hlater
      exact ⟨own, hR, by rw [hnone, List.nil_append, hown]⟩

omit [DecidableEq κ] in
theorem forall₂_concat {R : α → β → Prop} {xs : List α} {ys : List β} {x : α} {y : β} (h : List.Forall₂ R xs ys)
    (hlast : R x y) : List.Forall₂ R (xs ++ [x]) (ys ++ [y]) :=
  List.rel_append h (.cons hlast .nil)

section Perm

variable {γ : Type} {rows rows' : List α} {p p' own own' : α → Bool}

omit [DecidableEq κ] in
theorem any_perm (h : (rows.filter p).Perm (rows'.filter p')) : rows.any p = rows'.any p' := by
  rw [Bool.eq_iff_iff, List.any_eq_true, List.any_eq_true]
  simpa only [List.mem_filter] using exists_congr fun row => h.mem_iff

omit [DecidableEq κ] in
/-- Filters that only pass rows of a part, and agree on it, see no more than the part. -/
theorem filter_perm_of (h : (rows.filter own).Perm (rows'.filter own'))
    (hp : ∀ row ∈ rows, p row = true → own row = true) (hp' : ∀ row ∈ rows', p' row = true → own' row = true)
    (hsame : ∀ row ∈ rows, own row = true → p row = p' row) : (rows.filter p).Perm (rows'.filter p') := by
  have hpart : ∀ {q own : α → Bool} {rows : List α}, (∀ row ∈ rows, q row = true → own row = true) →
      rows.filter q = (rows.filter own).filter q := by
    intro q own rows hown
    rw [List.filter_filter]
    apply List.filter_congr
    intro row hrow
    cases hpass : q row with
    | true => simp [hown row hrow hpass]
    | false => simp
  have hcongr : (rows.filter own).filter p = (rows.filter own).filter p' := by
    apply List.filter_congr
    intro row hrow
    exact hsame row (List.mem_filter.mp hrow).1 (List.mem_filter.mp hrow).2
  rw [hpart hp, hpart hp', hcongr]
  exact h.filter p'

/-- A row of the part is the only one of its key on both sides. -/
theorem filter_key_of {key : α → κ} (h : (rows.filter own).Perm (rows'.filter own')) (hkeys : (rows.map key).Nodup)
    (hkeys' : (rows'.map key).Nodup) {row : α} (hrow : row ∈ rows) (hown : own row = true)
    (hp : ∀ other, p other = true ↔ key other = key row) : rows.filter p = [row] ∧ rows'.filter p = [row] := by
  have hrow' : row ∈ rows' := (List.mem_filter.mp (h.mem_iff.mp (List.mem_filter.mpr ⟨hrow, hown⟩))).1
  have hdecide : p = fun other => decide (key other = key row) := by
    funext other
    rw [Bool.eq_iff_iff, hp, decide_eq_true_eq]
  rw [hdecide]
  exact ⟨filter_key hkeys hrow, filter_key hkeys' hrow'⟩

omit [DecidableEq κ] in
theorem eq_of_perm {xs ys : List α} (h : xs.Perm ys) (hone : xs.length ≤ 1) : xs = ys := by
  match xs, hone with
  | [], _ => exact h.nil_eq
  | [x], _ => exact List.singleton_perm.mp h

omit [DecidableEq κ] in
theorem find?_congr (h : rows.filter p = rows'.filter p) : rows.find? p = rows'.find? p := by
  rw [← List.head?_filter, ← List.head?_filter, h]

omit [DecidableEq κ] in
theorem leftJoin_congr (h : rows.filter p = rows'.filter p) : leftJoin p rows = leftJoin p rows' := by
  rw [leftJoin, leftJoin, any_perm (.of_eq h), h]

omit [DecidableEq κ] in
theorem flatMap_perm_of {xs ys : List α} {f g : α → List γ} (h : xs.Perm ys)
    (hone : ∀ x ∈ xs, (f x).Perm (g x)) : (xs.flatMap f).Perm (ys.flatMap g) :=
  (List.Perm.flatMap_left xs hone).trans (h.flatMap_right g)

omit [DecidableEq κ] in
/-- What the rows outside of a part give nothing to is read from the part. -/
theorem flatMap_filter_of {f : α → List γ} (h : ∀ row ∈ rows, f row ≠ [] → own row = true) :
    rows.flatMap f = (rows.filter own).flatMap f := by
  induction rows with
  | nil => rfl
  | cons row rows ih =>
    have hrest := ih fun other hother => h other (List.mem_cons_of_mem _ hother)
    rw [List.flatMap_cons, List.filter_cons]
    split
    · rw [List.flatMap_cons, hrest]
    · next hout =>
      have hnil : f row = [] := by
        by_contra hne
        exact hout (h row List.mem_cons_self hne)
      rw [hnil, List.nil_append, hrest]

omit [DecidableEq κ] in
/-- Rows that each give no more than one thing, of their own key. -/
theorem flatMap_keys_sublist {f : α → List γ} {g : γ → κ} {key : α → κ} (hone : ∀ row ∈ rows, (f row).length ≤ 1)
    (hkey : ∀ row ∈ rows, ∀ x ∈ f row, g x = key row) : ((rows.flatMap f).map g).Sublist (rows.map key) := by
  induction rows with
  | nil => exact .slnil
  | cons row rows ih =>
    have hrest := ih (fun other hother => hone other (List.mem_cons_of_mem _ hother))
      fun other hother => hkey other (List.mem_cons_of_mem _ hother)
    rw [List.flatMap_cons, List.map_append, List.map_cons]
    match hf : f row, hone row List.mem_cons_self with
    | [], _ => exact hrest.cons _
    | [x], _ =>
      rw [List.map_singleton, hkey row List.mem_cons_self x (hf ▸ List.mem_singleton.mpr rfl)]
      exact hrest.cons_cons _

omit [DecidableEq κ] in
theorem filter_flatMap_of {f : α → List γ} {p : γ → Bool} (h : ∀ row ∈ rows, ∀ x ∈ f row, p x = own row) :
    (rows.flatMap f).filter p = (rows.filter own).flatMap f := by
  induction rows with
  | nil => rfl
  | cons row rows ih =>
    have hrest := ih fun other hother => h other (List.mem_cons_of_mem _ hother)
    have hrow := h row List.mem_cons_self
    rw [List.flatMap_cons, List.filter_append, List.filter_cons, hrest]
    split
    · next hown =>
      rw [List.flatMap_cons, List.filter_eq_self.mpr fun x hx => (hrow x hx).trans hown]
    · next hown =>
      rw [List.filter_eq_nil_iff.mpr fun x hx => by rw [hrow x hx]; exact hown, List.nil_append]

end Perm

end Rows
