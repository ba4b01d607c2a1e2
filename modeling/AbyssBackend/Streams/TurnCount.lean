import AbyssBackend.Streams.EventGroups
import AbyssBackend.Streams.Structure

namespace AbyssBackend.Streams

namespace Turns

structure Assigned (turns : Turns) : Prop where
  given : ∀ turn, some turn ∈ turns.of ↔ turn < turns.ids.length
  nodup : turns.ids.Nodup
  short : turns.ids.length ≤ turns.of.length

def collect (ids : List String) (id : String) : List String :=
  if id ∈ ids then ids else ids ++ [id]

/-- What assigning one exchange does: it joins a known turn, begins one, or joins one given before
or the latest. -/
theorem assignOne_cases (declared : Bool) (bases : List Base) (turns : Turns) (exchange : Exchange) :
    (∃ id turn, opened declared turns.ids exchange = some id ∧ id ∈ turns.ids ∧ turn < turns.ids.length ∧
      assignOne declared bases turns exchange = ⟨turns.of ++ [some turn], turns.ids⟩) ∨
    (∃ id, opened declared turns.ids exchange = some id ∧ id ∉ turns.ids ∧
      assignOne declared bases turns exchange =
        ⟨turns.of ++ [some turns.ids.length], turns.ids ++ [id]⟩) ∨
    (opened declared turns.ids exchange = none ∧ ∃ turn,
      (∀ t, turn = some t → some t ∈ turns.of ∨ t + 1 = turns.ids.length) ∧
      assignOne declared bases turns exchange = ⟨turns.of ++ [turn], turns.ids⟩) := by
  cases hopened : opened declared turns.ids exchange with
  | some id =>
    cases hid : turns.ids.idxOf? id with
    | some turn =>
      obtain ⟨hlt, heq, -⟩ := List.idxOf?_eq_some_iff.mp hid
      refine Or.inl ⟨id, turn, rfl, heq ▸ List.getElem_mem hlt, hlt, ?_⟩
      simp only [assignOne, hopened, hid]
    | none =>
      refine Or.inr (Or.inl ⟨id, rfl, List.idxOf?_eq_none_iff.mp hid, ?_⟩)
      simp only [assignOne, hopened, hid]
  | none =>
    have hcurrent : ∀ t, (if turns.ids.length = 0 then none else some (turns.ids.length - 1)) = some t →
        t + 1 = turns.ids.length := by
      intro t ht
      split_ifs at ht with hnone
      obtain rfl := Option.some.inj ht
      omega
    refine Or.inr (Or.inr ⟨rfl, _, ?_, by simp only [assignOne, hopened]; rfl⟩)
    intro t ht
    split at ht
    · next base _ _ =>
      split_ifs at ht
      · exact Or.inl (List.mem_of_getElem? (Option.join_eq_some_iff.mp ht))
      all_goals exact Or.inr (hcurrent t (by simp_all))
    · exact Or.inr (hcurrent t ht)

theorem assigned_start : Assigned start := ⟨by simp [start], List.nodup_nil, le_rfl⟩

theorem assigned_step {declared : Bool} {bases : List Base} {turns : Turns} (h : Assigned turns)
    (exchange : Exchange) : Assigned (assignOne declared bases turns exchange) := by
  have hshort := h.short
  obtain ⟨id, turn, -, -, hlt, heq⟩ | ⟨id, -, hnew, heq⟩ | ⟨-, turn, hturn, heq⟩ :=
    assignOne_cases declared bases turns exchange
  · rw [heq]
    refine ⟨fun other => ?_, h.nodup, by simp only [List.length_append]; omega⟩
    simp only [List.mem_append, List.mem_singleton, h.given, Option.some.injEq]
    omega
  · rw [heq]
    refine ⟨fun other => ?_, ?_, by simp only [List.length_append, List.length_singleton]; omega⟩
    · simp only [List.mem_append, List.mem_singleton, h.given, Option.some.injEq, List.length_append,
        List.length_singleton]
      omega
    · refine List.nodup_append.mpr ⟨h.nodup, List.nodup_singleton id, ?_⟩
      rintro x hx y hy rfl
      exact hnew (List.mem_singleton.mp hy ▸ hx)
  · rw [heq]
    refine ⟨fun other => ?_, h.nodup, by simp only [List.length_append]; omega⟩
    simp only [List.mem_append, List.mem_singleton, h.given]
    refine ⟨?_, Or.inl⟩
    rintro (hlt | hsome)
    · exact hlt
    · rcases hturn other hsome.symm with hgiven | hlast
      · exact (h.given other).mp hgiven
      · omega

theorem assignOne_of (declared : Bool) (bases : List Base) (turns : Turns) (exchange : Exchange) :
    ∃ turn, (assignOne declared bases turns exchange).of = turns.of ++ [turn] := by
  obtain ⟨_, turn, -, -, -, heq⟩ | ⟨_, -, -, heq⟩ | ⟨-, turn, -, heq⟩ :=
    assignOne_cases declared bases turns exchange
  all_goals exact ⟨_, by rw [heq]⟩

theorem assignOne_ids (declared : Bool) (bases : List Base) (turns : Turns) (exchange : Exchange) :
    (assignOne declared bases turns exchange).ids =
      match opened declared turns.ids exchange with
      | some id => collect turns.ids id
      | none => turns.ids := by
  obtain ⟨id, turn, hopened, hmem, -, heq⟩ | ⟨id, hopened, hnew, heq⟩ | ⟨hopened, turn, -, heq⟩ :=
    assignOne_cases declared bases turns exchange
  · simp [heq, hopened, collect, hmem]
  · simp [heq, hopened, collect, hnew]
  · simp [heq, hopened]

theorem assign_assigned (exchanges : List Exchange) (bases : List Base) :
    Assigned (assign exchanges bases) := by
  unfold assign
  generalize exchanges.any (fun exchange => exchange.turnId.isSome) = declared
  induction exchanges using List.reverseRecOn with
  | nil => exact assigned_start
  | append_singleton exchanges exchange ih =>
    rw [List.foldl_concat]
    exact assigned_step ih exchange

theorem assign_length (exchanges : List Exchange) (bases : List Base) :
    (assign exchanges bases).of.length = exchanges.length := by
  unfold assign
  generalize exchanges.any (fun exchange => exchange.turnId.isSome) = declared
  induction exchanges using List.reverseRecOn with
  | nil => rfl
  | append_singleton exchanges exchange ih =>
    rw [List.foldl_concat]
    obtain ⟨turn, hof⟩ := assignOne_of declared bases (exchanges.foldl (assignOne declared bases) start) exchange
    rw [hof, List.length_append, ih, List.length_append]
    rfl

end Turns

end AbyssBackend.Streams
