import AbyssBackend.Streams.Bases

namespace AbyssBackend.Streams

open Positions Tables

def emittedIds (exchange : Exchange) : List String :=
  match exchange.response with
  | some response => response.facts.emittedIds
  | none => []

def emits (exchanges : List Exchange) (id : String) (index : ℕ) : Bool :=
  exchanges[index]?.any fun exchange => (emittedIds exchange).contains id

theorem emit_all {index : ℕ} {byId : String → List ℕ} (hlt : ∀ id, ∀ i ∈ byId id, i < index)
    (ids : List String) (id : String) :
    ids.foldl (emit index) byId id = if id ∈ ids then byId id ++ [index] else byId id := by
  induction ids using List.reverseRecOn generalizing id with
  | nil => simp
  | append_singleton ids last ih =>
    have hstep : (ids ++ [last]).foldl (emit index) byId = emit index (ids.foldl (emit index) byId) last := by
      simp
    rw [hstep]
    by_cases hmem : last ∈ ids
    · have hlast : (ids.foldl (emit index) byId last).getLast? = some index := by simp [ih, hmem]
      have hsame : id ∈ ids ++ [last] ↔ id ∈ ids := by
        simpa using fun h : id = last => h ▸ hmem
      rw [emit, if_pos hlast, ih]
      simp only [hsame]
    · have hlast : (ids.foldl (emit index) byId last).getLast? ≠ some index := by
        intro h
        rw [ih, if_neg hmem] at h
        exact absurd (hlt last index (List.mem_of_getLast? h)) (lt_irrefl _)
      rw [emit, if_neg hlast]
      by_cases hid : id = last
      · subst hid
        simp [ih, hmem]
      · simp [ih, hid]

theorem emitters_concat (exchanges : List Exchange) (exchange : Exchange) :
    emitters (exchanges ++ [exchange]) =
      (emittedIds exchange).foldl (emit exchanges.length) (emitters exchanges) := by
  cases h : exchange.response <;>
    simp [emitters, List.zipIdx_append, emitExchange, emittedIds, h]

theorem emits_lt {exchanges : List Exchange} {id : String} {index : ℕ}
    (h : emits exchanges id index = true) : index < exchanges.length := by
  by_contra hge
  simp [emits, List.getElem?_eq_none (not_lt.mp hge)] at h

theorem emits_concat (exchanges : List Exchange) (exchange : Exchange) (id : String) {index : ℕ}
    (h : index < exchanges.length) : emits (exchanges ++ [exchange]) id index = emits exchanges id index := by
  simp [emits, List.getElem?_append_left h]

theorem emitters_eq (exchanges : List Exchange) (id : String) :
    emitters exchanges id = (List.range exchanges.length).filter (emits exchanges id) := by
  induction exchanges using List.reverseRecOn generalizing id with
  | nil => rfl
  | append_singleton exchanges exchange ih =>
    have hlt : ∀ id, ∀ i ∈ emitters exchanges id, i < exchanges.length := by
      intro id i hi
      rw [ih] at hi
      exact List.mem_range.mp (List.mem_filter.mp hi).1
    have hbefore : (List.range exchanges.length).filter (emits (exchanges ++ [exchange]) id) =
        emitters exchanges id := by
      rw [ih]
      exact List.filter_congr fun i hi => emits_concat _ _ _ (List.mem_range.mp hi)
    rw [emitters_concat, emit_all hlt, List.length_append, List.length_singleton, List.range_succ,
      List.filter_append, hbefore]
    by_cases hid : id ∈ emittedIds exchange <;> simp [hid, emits]

theorem mem_emitters {exchanges : List Exchange} {id : String} {index : ℕ} :
    index ∈ emitters exchanges id ↔ emits exchanges id index = true := by
  rw [emitters_eq, List.mem_filter, List.mem_range]
  exact ⟨And.right, fun h => ⟨emits_lt h, h⟩⟩

theorem emitters_nodup (exchanges : List Exchange) (id : String) : (emitters exchanges id).Nodup := by
  rw [emitters_eq]
  exact List.nodup_range.filter _

theorem onlyEmitterLoop_ok {own found : ℕ} {before : Option ℕ} {list : List ℕ} :
    onlyEmitterLoop own before list = .ok found ↔
      (∀ i ∈ list, i = own ∨ i = found) ∧
        (before = some found ∨ before = none ∧ found ≠ own ∧ found ∈ list) := by
  induction list generalizing before with
  | nil => cases before <;> simp [onlyEmitterLoop]
  | cons emitter rest ih =>
    by_cases hskip : emitter = own ∨ before = some emitter
    · have hstep : onlyEmitterLoop own before (emitter :: rest) = onlyEmitterLoop own before rest := by
        cases before <;> simp_all [onlyEmitterLoop]
      rw [hstep, ih]
      rcases hskip with rfl | rfl
      · constructor
        · rintro ⟨hall, hfound⟩
          exact ⟨by simpa using hall, hfound.imp id fun ⟨hn, hne, hm⟩ => ⟨hn, hne, by simp [hm]⟩⟩
        · rintro ⟨hall, hfound⟩
          refine ⟨by simpa using hall, hfound.imp id fun ⟨hn, hne, hm⟩ => ⟨hn, hne, ?_⟩⟩
          exact (List.mem_cons.mp hm).resolve_left hne
      · constructor
        · rintro ⟨hall, hfound⟩
          obtain rfl : emitter = found := by simpa using hfound
          exact ⟨by simpa using hall, Or.inl rfl⟩
        · rintro ⟨hall, hfound⟩
          exact ⟨fun i hi => hall i (by simp [hi]), hfound.imp id fun ⟨hn, _⟩ => by simp at hn⟩
    · obtain ⟨hown, hbefore⟩ := not_or.mp hskip
      cases before with
      | some first =>
        have hstep : onlyEmitterLoop own (some first) (emitter :: rest) = .error .multipleResponses := by
          simp_all [onlyEmitterLoop]
        rw [hstep]
        constructor
        · intro h; cases h
        · rintro ⟨hall, hfound⟩
          obtain rfl : first = found := by simpa using hfound
          rcases hall emitter (by simp) with h | h
          · exact absurd h hown
          · exact absurd (by rw [h]) hbefore
      | none =>
        have hstep : onlyEmitterLoop own none (emitter :: rest) = onlyEmitterLoop own (some emitter) rest := by
          simp [onlyEmitterLoop, hown]
        rw [hstep, ih]
        constructor
        · rintro ⟨hall, hfound⟩
          obtain rfl : emitter = found := by simpa using hfound
          exact ⟨by simpa using hall, Or.inr ⟨rfl, hown, by simp⟩⟩
        · rintro ⟨hall, hfound⟩
          obtain rfl : emitter = found := (hall emitter (by simp)).resolve_left hown
          exact ⟨fun i hi => hall i (by simp [hi]), Or.inl rfl⟩

theorem onlyEmitter_ok {ids : List String} {own found : ℕ} {byId : String → List ℕ} :
    onlyEmitter ids own byId = .ok found ↔
      found ≠ own ∧ (∃ id ∈ ids, found ∈ byId id) ∧ ∀ id ∈ ids, ∀ i ∈ byId id, i = own ∨ i = found := by
  rw [onlyEmitter, onlyEmitterLoop_ok]
  simp only [reduceCtorEq, false_or, true_and, List.mem_flatMap]
  constructor
  · rintro ⟨hall, hne, hmem⟩
    exact ⟨hne, hmem, fun id hid i hi => hall i ⟨id, hid, hi⟩⟩
  · rintro ⟨hne, hmem, hall⟩
    exact ⟨fun i ⟨id, hid, hi⟩ => hall id hid i hi, hne, hmem⟩

theorem onlyEmitterLoop_unknown {own : ℕ} {before : Option ℕ} {list : List ℕ} :
    onlyEmitterLoop own before list = .error .unknownIds ↔ before = none ∧ ∀ i ∈ list, i = own := by
  induction list generalizing before with
  | nil => cases before <;> simp [onlyEmitterLoop]
  | cons emitter rest ih =>
    cases before with
    | some first =>
      by_cases hskip : emitter = own ∨ first = emitter <;> simp [onlyEmitterLoop, hskip, ih]
    | none => by_cases hskip : emitter = own <;> simp [onlyEmitterLoop, hskip, ih]

theorem onlyEmitterLoop_error {own : ℕ} {before : Option ℕ} {list : List ℕ} {reason : NoBaseReason}
    (h : onlyEmitterLoop own before list = .error reason) :
    reason = .unknownIds ∨ reason = .multipleResponses := by
  induction list generalizing before with
  | nil => cases before <;> simp_all [onlyEmitterLoop]
  | cons emitter rest ih =>
    cases before with
    | none =>
      by_cases hown : emitter = own <;> simp only [onlyEmitterLoop, hown, reduceCtorEq, or_false,
        ↓reduceIte, Option.isSome_none, Bool.false_eq_true] at h <;> exact ih h
    | some first =>
      by_cases hskip : emitter = own ∨ first = emitter
      · simp only [onlyEmitterLoop, Option.some.injEq, hskip, ↓reduceIte] at h
        exact ih h
      · simp only [onlyEmitterLoop, Option.some.injEq, hskip, ↓reduceIte, Option.isSome_some,
          Except.error.injEq] at h
        exact Or.inr h.symm

theorem onlyEmitter_unknown {ids : List String} {own : ℕ} {byId : String → List ℕ} :
    onlyEmitter ids own byId = .error .unknownIds ↔ ∀ id ∈ ids, ∀ i ∈ byId id, i = own := by
  rw [onlyEmitter, onlyEmitterLoop_unknown]
  simp only [true_and, List.mem_flatMap]
  exact ⟨fun h id hid i hi => h i ⟨id, hid, hi⟩, fun h i ⟨id, hid, hi⟩ => h id hid i hi⟩

theorem byResponseId_eq_none {exchanges : List Exchange} {responseId : String}
    (h : ∀ exchange ∈ exchanges, exchange.responseId ≠ some responseId) :
    byResponseId exchanges responseId = none := by
  apply ofPairs_eq_none.mpr
  intro index hmem
  obtain ⟨⟨exchange, i⟩, hx, hpair⟩ := List.mem_filterMap.mp hmem
  obtain ⟨found, hfound, heq⟩ := Option.map_eq_some_iff.mp hpair
  obtain rfl : found = responseId := (Prod.mk.inj heq).1
  exact h exchange (List.fst_mem_of_mem_zipIdx hx) hfound

def sessionBases (exchanges : List Exchange) : List Base :=
  findBases exchanges (byResponseId exchanges) (emitters exchanges)

def firstBases (exchanges : List Exchange) : List Base :=
  (List.range exchanges.length).map fun index =>
    findBase index exchanges (byResponseId exchanges) (emitters exchanges)

theorem firstBases_getElem? {exchanges : List Exchange} {index : ℕ} (h : index < exchanges.length) :
    (firstBases exchanges)[index]? =
      some (findBase index exchanges (byResponseId exchanges) (emitters exchanges)) := by
  simp [firstBases, h]

theorem sessionBases_getElem? {exchanges : List Exchange} {index : ℕ} (h : index < exchanges.length) :
    (sessionBases exchanges)[index]? = some
      (match findBase index exchanges (byResponseId exchanges) (emitters exchanges) with
      | .error .multipleResponses =>
        (tellApart index exchanges (emitters exchanges) (firstBases exchanges)).getD
          (.error .multipleResponses)
      | found => found) := by
  simp only [sessionBases, findBases, List.getElem?_map, List.getElem?_zipIdx, List.getElem?_range h,
    Option.map_some, Nat.zero_add]
  congr 1
  split <;> simp_all [firstBases]

theorem sessionBases_of_ne {exchanges : List Exchange} {index : ℕ} {found : Base}
    (h : index < exchanges.length)
    (hfound : findBase index exchanges (byResponseId exchanges) (emitters exchanges) = found)
    (hne : found ≠ .error .multipleResponses) : (sessionBases exchanges)[index]? = some found := by
  rw [sessionBases_getElem? h, hfound]
  split
  · exact absurd rfl hne
  · rfl

theorem sessionBases_of_multiple {exchanges : List Exchange} {index : ℕ} (h : index < exchanges.length)
    (hfound : findBase index exchanges (byResponseId exchanges) (emitters exchanges) =
      .error .multipleResponses) :
    (sessionBases exchanges)[index]? = some
      ((tellApart index exchanges (emitters exchanges) (firstBases exchanges)).getD
        (.error .multipleResponses)) := by
  rw [sessionBases_getElem? h, hfound]

end AbyssBackend.Streams
