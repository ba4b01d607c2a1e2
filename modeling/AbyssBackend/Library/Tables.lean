import Mathlib.Data.List.Basic
import Mathlib.Data.List.Induction
import Mathlib.Data.List.Nodup
import Mathlib.Data.List.Perm.Basic
import Mathlib.Logic.Function.Basic

namespace Tables

variable {κ ν : Type}

/-- A map that is only ever read by key. -/
abbrev Table (κ ν : Type) := κ → Option ν

def empty : Table κ ν := fun _ => none

variable [DecidableEq κ]

def insert (table : Table κ ν) (k : κ) (v : ν) : Table κ ν :=
  Function.update table k (some v)

def orInsert (table : Table κ ν) (k : κ) (v : ν) : Table κ ν :=
  match table k with
  | some _ => table
  | none => insert table k v

@[simp] theorem insert_self (table : Table κ ν) (k : κ) (v : ν) : insert table k v k = some v := by
  simp [insert]

theorem insert_ne (table : Table κ ν) {k j : κ} (v : ν) (h : j ≠ k) : insert table k v j = table j := by
  simp [insert, h]

theorem orInsert_self (table : Table κ ν) (k : κ) (v : ν) :
    orInsert table k v k = (table k).or (some v) := by
  cases h : table k <;> simp [orInsert, h]

theorem orInsert_ne (table : Table κ ν) {k j : κ} (v : ν) (h : j ≠ k) :
    orInsert table k v j = table j := by
  cases hk : table k with
  | some w => simp [orInsert, hk]
  | none => simp [orInsert, hk, insert_ne table v h]

/-- The table of the pairs; a later pair replaces an earlier one of its key. -/
def ofPairs (pairs : List (κ × ν)) : Table κ ν :=
  pairs.foldl (fun table pair => insert table pair.1 pair.2) empty

/-- The table of the pairs; the first pair of a key stays. -/
def ofFirst (pairs : List (κ × ν)) : Table κ ν :=
  pairs.foldl (fun table pair => orInsert table pair.1 pair.2) empty

theorem ofPairs_apply (pairs : List (κ × ν)) (k : κ) :
    ofPairs pairs k = (pairs.reverse.find? fun pair => pair.1 = k).map Prod.snd := by
  induction pairs using List.reverseRecOn with
  | nil => rfl
  | append_singleton pairs pair ih =>
    have hstep : ofPairs (pairs ++ [pair]) = insert (ofPairs pairs) pair.1 pair.2 := by simp [ofPairs]
    by_cases hk : pair.1 = k
    · simp [hstep, ← hk]
    · rw [hstep, insert_ne _ _ (Ne.symm hk), ih]
      simp [hk]

theorem ofFirst_apply (pairs : List (κ × ν)) (k : κ) :
    ofFirst pairs k = (pairs.find? fun pair => pair.1 = k).map Prod.snd := by
  induction pairs using List.reverseRecOn with
  | nil => rfl
  | append_singleton pairs pair ih =>
    have hstep : ofFirst (pairs ++ [pair]) = orInsert (ofFirst pairs) pair.1 pair.2 := by simp [ofFirst]
    by_cases hk : pair.1 = k
    · rw [hstep, ← hk, orInsert_self, hk, ih, List.find?_append]
      cases pairs.find? (fun pair => pair.1 = k) <;> simp [hk]
    · rw [hstep, orInsert_ne _ _ (Ne.symm hk), ih, List.find?_append]
      simp [hk]

theorem ofPairs_mem {pairs : List (κ × ν)} {k : κ} {v : ν} (h : ofPairs pairs k = some v) :
    (k, v) ∈ pairs := by
  rw [ofPairs_apply] at h
  obtain ⟨⟨j, w⟩, hfind, rfl⟩ := Option.map_eq_some_iff.mp h
  have hmem := List.mem_of_find?_eq_some hfind
  obtain rfl : j = k := by simpa using List.find?_some hfind
  simpa using hmem

theorem ofPairs_eq_none {pairs : List (κ × ν)} {k : κ} :
    ofPairs pairs k = none ↔ ∀ v, (k, v) ∉ pairs := by
  rw [ofPairs_apply]
  simp only [Option.map_eq_none_iff, List.find?_eq_none, List.mem_reverse, decide_eq_true_eq, Prod.forall]
  exact ⟨fun h v hv => h k v hv rfl, fun h j v hv hj => h v (hj ▸ hv)⟩

theorem ofPairs_isSome {pairs : List (κ × ν)} {k : κ} (h : k ∈ pairs.map Prod.fst) : (ofPairs pairs k).isSome := by
  obtain ⟨⟨_, v⟩, hmem, rfl⟩ := List.mem_map.mp h
  exact Option.isSome_iff_ne_none.mpr fun hnone => ofPairs_eq_none.mp hnone v hmem

theorem ofPairs_of_mem {pairs : List (κ × ν)} {k : κ} {v : ν} (h : (k, v) ∈ pairs)
    (hsame : ∀ w, (k, w) ∈ pairs → w = v) : ofPairs pairs k = some v := by
  obtain ⟨w, hw⟩ := Option.isSome_iff_exists.mp (ofPairs_isSome (List.mem_map_of_mem (f := Prod.fst) h))
  rw [hw, hsame w (ofPairs_mem hw)]

theorem getD_ofPairs {pairs : List (κ × ν)} {k : κ} {v : ν} (h : (k, v) ∈ pairs)
    (hsame : ∀ w, (k, w) ∈ pairs → w = v) (default : ν) : (ofPairs pairs k).getD default = v := by
  rw [ofPairs_of_mem h hsame, Option.getD_some]

theorem ofPairs_eq_some {pairs : List (κ × ν)} (hn : (pairs.map Prod.fst).Nodup) {k : κ} {v : ν} :
    ofPairs pairs k = some v ↔ (k, v) ∈ pairs := by
  refine ⟨ofPairs_mem, fun h => ofPairs_of_mem h fun w hw => ?_⟩
  exact (Prod.mk.inj (List.inj_on_of_nodup_map hn hw h rfl)).2

/-- Where no key has two values, the order of the pairs does not matter. -/
theorem ofPairs_perm {pairs pairs' : List (κ × ν)} (h : pairs.Perm pairs')
    (hsame : ∀ k v w, (k, v) ∈ pairs → (k, w) ∈ pairs → w = v) : ofPairs pairs = ofPairs pairs' := by
  funext k
  cases hvalue : ofPairs pairs k with
  | none =>
    have hnone := ofPairs_eq_none.mp hvalue
    exact (ofPairs_eq_none.mpr fun v hv => hnone v (h.mem_iff.mpr hv)).symm
  | some v =>
    have hmem := ofPairs_mem hvalue
    refine (ofPairs_of_mem (h.mem_iff.mp hmem) fun w hw => ?_).symm
    exact hsame k v w hmem (h.mem_iff.mpr hw)

theorem ofFirst_split {front back : List (κ × ν)} {k : κ} {v : ν} (h : ∀ w, (k, w) ∉ front) :
    ofFirst (front ++ (k, v) :: back) k = some v := by
  have hfront : front.find? (fun pair => pair.1 = k) = none := by
    simp only [List.find?_eq_none, decide_eq_true_eq, Prod.forall]
    exact fun j w hw hj => h w (hj ▸ hw)
  rw [ofFirst_apply, List.find?_append, hfront]
  simp

theorem ofFirst_zipIdx {α : Type} {xs : List α} {f : α → κ} {x : α} {i : ℕ} (hx : xs[i]? = some x)
    (hfirst : ∀ j < i, ∀ y, xs[j]? = some y → f y ≠ f x) :
    ofFirst (xs.zipIdx.map fun indexed => (f indexed.1, indexed.2)) (f x) = some i := by
  obtain ⟨hi, rfl⟩ := List.getElem?_eq_some_iff.mp hx
  have hsplit : xs = xs.take i ++ xs[i] :: xs.drop (i + 1) := by simp
  have hlength : (xs.take i).length = i := by simp [Nat.le_of_lt hi]
  have hzip : xs.zipIdx = (xs.take i).zipIdx ++ (xs[i], i) :: (xs.drop (i + 1)).zipIdx (i + 1) := by
    conv_lhs => rw [hsplit, List.zipIdx_append, hlength, Nat.zero_add, List.zipIdx_cons]
  rw [hzip, List.map_append, List.map_cons]
  apply ofFirst_split
  intro j hj
  obtain ⟨⟨y, place⟩, hmem, hpair⟩ := List.mem_map.mp hj
  have hget := List.mem_zipIdx_iff_getElem?.mp hmem
  have hlt : place < i := hlength ▸ (List.getElem?_eq_some_iff.mp hget).1
  rw [List.getElem?_take_of_lt hlt] at hget
  exact hfirst place hlt y hget (Prod.mk.inj hpair).1

end Tables
