import AbyssBackend.Streams.Timeline

namespace AbyssBackend.Streams.Executor

variable {executors : List Executor}

structure Ready (executors : List Executor) (stack placed : List ℕ) : Prop where
  stack : ∀ index ∈ stack, index < executors.length
  nodup : placed.Nodup
  placed : ∀ index ∈ placed, index < executors.length

theorem unplacedChildren_lt {placed : List ℕ} {next child : ℕ}
    (h : child ∈ unplacedChildren executors placed next) : child < executors.length :=
  List.mem_range.mp (List.mem_filter.mp h).1

theorem Ready.skip {next : ℕ} {stack placed : List ℕ} (h : Ready executors (next :: stack) placed) :
    Ready executors stack placed :=
  ⟨fun index hindex => h.stack index (List.mem_cons_of_mem _ hindex), h.nodup, h.placed⟩

theorem Ready.place {next : ℕ} {stack placed : List ℕ} (h : Ready executors (next :: stack) placed)
    (hnew : next ∉ placed) :
    Ready executors (unplacedChildren executors (placed ++ [next]) next ++ stack) (placed ++ [next]) where
  stack := by
    intro index hindex
    rcases List.mem_append.mp hindex with hindex | hindex
    · exact unplacedChildren_lt hindex
    · exact h.skip.stack index hindex
  nodup := List.nodup_append.mpr ⟨h.nodup, List.nodup_singleton next, by
    rintro index hindex other hother rfl
    exact hnew (List.mem_singleton.mp hother ▸ hindex)⟩
  placed := by
    intro index hindex
    rcases List.mem_append.mp hindex with hindex | hindex
    · exact h.placed index hindex
    · rw [List.mem_singleton.mp hindex]
      exact h.stack next (by simp)

/-- Draining only appends, and keeps what it places apart and in range. -/
structure Drained (executors : List Executor) (placed after : List ℕ) : Prop where
  grows : placed <+: after
  nodup : after.Nodup
  placed : ∀ index ∈ after, index < executors.length

theorem drain_drained (fuel : ℕ) {stack placed : List ℕ} (h : Ready executors stack placed) :
    Drained executors placed (drain executors fuel (stack, placed)).2 := by
  induction fuel generalizing stack placed with
  | zero => exact ⟨List.prefix_rfl, h.nodup, h.placed⟩
  | succ fuel ih =>
    cases stack with
    | nil => exact ⟨List.prefix_rfl, h.nodup, h.placed⟩
    | cons next stack =>
      simp only [drain]
      split
      · exact ih h.skip
      · next hnew =>
        have hdrained := ih (h.place (by simpa using hnew))
        exact ⟨(List.prefix_append _ _).trans hdrained.grows, hdrained.nodup, hdrained.placed⟩

theorem drain_places (fuel : ℕ) {next : ℕ} {stack placed : List ℕ} (h : Ready executors (next :: stack) placed)
    (hnew : next ∉ placed) : next ∈ (drain executors (fuel + 1) (next :: stack, placed)).2 := by
  have hnot : placed.contains next = false := by simpa using hnew
  simp only [drain, hnot, Bool.false_eq_true, if_false]
  exact (drain_drained fuel (h.place hnew)).grows.subset (by simp)

def waiting (executors : List Executor) (placed : List ℕ) : List ℕ :=
  (List.range executors.length).filter fun child =>
    ((parents executors).getD child none).any fun parent => !placed.contains parent

theorem filter_lengths {α : Type} {p q r : α → Bool} {xs : List α} (hp : ∀ x, p x = true → r x = true)
    (hq : ∀ x, q x = true → r x = true ∧ p x = false) :
    (xs.filter q).length + (xs.filter p).length ≤ (xs.filter r).length := by
  induction xs with
  | nil => simp
  | cons x xs ih =>
    simp only [List.filter_cons]
    cases hqx : q x with
    | true =>
      obtain ⟨hr, hpx⟩ := hq x hqx
      simp only [hr, hpx, if_true, Bool.false_eq_true, if_false, List.length_cons]
      omega
    | false =>
      cases hpx : p x with
      | true => simp only [hp x hpx, if_true, Bool.false_eq_true, if_false, List.length_cons]; omega
      | false => cases r x <;> simp <;> omega

variable (executors) in
theorem waiting_place {placed : List ℕ} {next : ℕ} (hnew : next ∉ placed) :
    (unplacedChildren executors (placed ++ [next]) next).length +
      (waiting executors (placed ++ [next])).length ≤ (waiting executors placed).length := by
  apply filter_lengths
  · intro child h
    cases hparent : (parents executors).getD child none <;> simp_all
  · intro child h
    cases hparent : (parents executors).getD child none <;> simp_all

theorem drain_stack {fuel : ℕ} {stack placed : List ℕ} (h : Ready executors stack placed)
    (hfuel : stack.length + (waiting executors placed).length ≤ fuel) :
    (drain executors fuel (stack, placed)).1 = [] := by
  induction fuel generalizing stack placed with
  | zero =>
    simp only [drain]
    exact List.eq_nil_of_length_eq_zero (by omega)
  | succ fuel ih =>
    cases stack with
    | nil => rfl
    | cons next stack =>
      simp only [drain]
      simp only [List.length_cons] at hfuel
      split
      · exact ih h.skip (by omega)
      · next hnew =>
        have hnew : next ∉ placed := by simpa using hnew
        have hwaiting := waiting_place executors hnew
        apply ih (h.place hnew)
        rw [List.length_append]
        omega

theorem enter_stack {index : ℕ} {placed : List ℕ} (h : Ready executors [index] placed) :
    (drain executors (executors.length + 1) ([index], placed)).1 = [] := by
  apply drain_stack h
  have hwaiting : (waiting executors placed).length ≤ executors.length :=
    (List.length_filter_le _ _).trans (by simp)
  simp only [List.length_singleton]
  omega

theorem enter_drained (topOnly : Bool) {placed : List ℕ} {index : ℕ} (hindex : index < executors.length)
    (hnodup : placed.Nodup) (hplaced : ∀ index ∈ placed, index < executors.length) :
    Drained executors placed (enter executors topOnly placed index) := by
  unfold enter
  split
  · exact ⟨List.prefix_rfl, hnodup, hplaced⟩
  · exact drain_drained _ ⟨by simpa using hindex, hnodup, hplaced⟩

theorem enter_places {placed : List ℕ} {index : ℕ} (hindex : index < executors.length)
    (hnodup : placed.Nodup) (hplaced : ∀ index ∈ placed, index < executors.length) :
    index ∈ enter executors false placed index := by
  unfold enter
  split
  · next h => simpa using h
  · next h => exact drain_places _ ⟨by simpa using hindex, hnodup, hplaced⟩ (by simpa using h)

variable (executors) in
theorem pass_drained (topOnly : Bool) {placed : List ℕ} (hnodup : placed.Nodup)
    (hplaced : ∀ index ∈ placed, index < executors.length) {count : ℕ} (hcount : count ≤ executors.length) :
    Drained executors placed ((List.range count).foldl (enter executors topOnly) placed) := by
  induction count with
  | zero => exact ⟨List.prefix_rfl, hnodup, hplaced⟩
  | succ count ih =>
    have hbefore := ih (by omega)
    have hafter := enter_drained topOnly (by omega : count < executors.length) hbefore.nodup
      hbefore.placed
    rw [List.range_succ, List.foldl_concat]
    exact ⟨hbefore.grows.trans hafter.grows, hafter.nodup, hafter.placed⟩

theorem pass_places {placed : List ℕ} (hnodup : placed.Nodup)
    (hplaced : ∀ index ∈ placed, index < executors.length) {count : ℕ} (hcount : count ≤ executors.length)
    {index : ℕ} (hindex : index < count) :
    index ∈ (List.range count).foldl (enter executors false) placed := by
  induction count with
  | zero => omega
  | succ count ih =>
    have hbefore := pass_drained executors false hnodup hplaced (by omega : count ≤ executors.length)
    have hlt : count < executors.length := by omega
    rw [List.range_succ, List.foldl_concat]
    rcases Nat.lt_succ_iff_lt_or_eq.mp hindex with h | rfl
    · exact (enter_drained false hlt hbefore.nodup hbefore.placed).grows.subset (ih (by omega) h)
    · exact enter_places hlt hbefore.nodup hbefore.placed

/-- Every executor is placed exactly once. -/
theorem startOrder_perm (executors : List Executor) :
    (startOrder executors).Perm (List.range executors.length) := by
  have hfirst := pass_drained executors true List.nodup_nil (by simp) le_rfl
  have hsecond := pass_drained executors false hfirst.nodup hfirst.placed le_rfl
  apply (List.perm_ext_iff_of_nodup hsecond.nodup List.nodup_range).mpr
  intro index
  rw [List.mem_range]
  exact ⟨hsecond.placed index, pass_places hfirst.nodup hfirst.placed le_rfl⟩

theorem filterMap_range {α : Type} (xs : List α) (count : ℕ) :
    (List.range count).filterMap (fun index => xs[index]?) = xs.take count := by
  induction count with
  | zero => rfl
  | succ count ih =>
    rw [List.range_succ, List.filterMap_append, ih, List.take_add_one]
    cases h : xs[count]? <;> simp [h]

theorem startedFirst_perm (executors : List Executor) : (startedFirst executors).Perm executors := by
  refine ((startOrder_perm executors).filterMap _).trans (List.Perm.of_eq ?_)
  rw [filterMap_range, List.take_length]

end AbyssBackend.Streams.Executor
