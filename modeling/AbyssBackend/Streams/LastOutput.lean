import AbyssBackend.Streams.Replay

namespace AbyssBackend.Streams

open Conversation Positions Tables Text

theorem saysAll_cons (role spoken : String) (trailing said : List String) :
    saysAll (role :: trailing) (spoken :: said) =
      if spoken = role then saysAll trailing said else saysAll (role :: trailing) said := by
  by_cases h : spoken = role <;> simp [saysAll, h]

theorem saysAll_iff {trailing said : List String} : saysAll trailing said = true ↔ trailing.Sublist said := by
  induction said generalizing trailing with
  | nil => cases trailing <;> simp [saysAll]
  | cons spoken said ih =>
    cases trailing with
    | nil => simp [saysAll]
    | cons role trailing =>
      rw [saysAll_cons]
      by_cases h : spoken = role
      · rw [if_pos h, ih, h, List.cons_sublist_cons]
      · rw [if_neg h, ih, List.cons_sublist_cons']
        simp [Ne.symm h]

section Keys

variable [Sha256]

def keyedBy (last : String) (entry : Entry) : Bool := isModelSide entry && key entry == some last

def said (entries : List Entry) : List String := (entries.filter isModelSide).map Entry.role

omit [Sha256] in
theorem said_append (front back : List Entry) : said (front ++ back) = said front ++ said back := by
  simp [said]

theorem saidAfter_split {front back : List Entry} {held : Entry} {last : String} {trailing : List String}
    (hheld : keyedBy last held = true) (hback : ∀ entry ∈ back, keyedBy last entry = false) :
    saidAfter (skeleton (front ++ held :: back)) last trailing = true ↔ trailing.Sublist (said back) := by
  have hat : rposition (fun entry : SkeletonEntry => modelRoles.contains entry.1 && entry.2 == some last)
      (skeleton (front ++ held :: back)) = some front.length := by
    rw [skeleton, rposition_map]
    exact rposition_append_cons front hheld hback
  have hdrop : (skeleton (front ++ held :: back)).drop (front.length + 1) = skeleton back := by
    simp [skeleton, List.drop_append]
  simp only [saidAfter, hat, hdrop, skeleton_roles]
  exact saysAll_iff

theorem saidAfter_unkeyed {entries : List Entry} {last : String} {trailing : List String}
    (h : ∀ entry ∈ entries, keyedBy last entry = false) : saidAfter (skeleton entries) last trailing = false := by
  have hat : rposition (fun entry : SkeletonEntry => modelRoles.contains entry.1 && entry.2 == some last)
      (skeleton entries) = none := by
    rw [skeleton, rposition_map]
    exact rposition_eq_none.mpr h
  simp only [saidAfter, hat]

/-- The answer has an entry under the key, and what trails is said after those that come later than
the last entry with the identity. -/
def SaidUnderKey (last : String) (trailing : List String) (front : List Entry) (carrier : Entry)
    (back : List Entry) : Prop :=
  (∃ entry ∈ front ++ carrier :: back, keyedBy last entry = true) ∧
    ∀ between held after, back = between ++ held :: after → keyedBy last held = true →
      (∀ entry ∈ after, keyedBy last entry = false) → trailing.Sublist (said after)

theorem saidAfter_iff {front back : List Entry} {carrier : Entry} {last : String} {trailing : List String}
    (hsaid : trailing.Sublist (said back)) :
    saidAfter (skeleton (front ++ carrier :: back)) last trailing = true ↔
      SaidUnderKey last trailing front carrier back := by
  constructor
  · intro h
    refine ⟨?_, fun between held after hsplit hheld hafter => ?_⟩
    · by_contra hnone
      push Not at hnone
      have hunkeyed : saidAfter (skeleton (front ++ carrier :: back)) last trailing = false :=
        saidAfter_unkeyed fun entry he => Bool.eq_false_iff.mpr (hnone entry he)
      rw [hunkeyed] at h
      exact Bool.false_ne_true h
    · rw [hsplit, ← List.cons_append, ← List.append_assoc] at h
      exact (saidAfter_split hheld hafter).mp h
  · rintro ⟨hkeyed, hlater⟩
    obtain ⟨before, held, after, hsplit, hheld, hafter⟩ := exists_last hkeyed
    rw [hsplit]
    apply (saidAfter_split hheld hafter).mpr
    -- the last entry under the key stands after the last one with the identity, or not
    obtain ⟨between, -, hback⟩ | ⟨between, -, hfront⟩ := List.append_eq_append_iff.mp hsplit
    · cases between with
      | nil =>
        obtain ⟨-, rfl⟩ := List.cons.inj hback
        exact hsaid
      | cons _ between =>
        obtain ⟨-, hback⟩ := List.cons.inj hback
        exact hlater between held after hback hheld hafter
    · cases between with
      | nil =>
        obtain ⟨-, rfl⟩ := List.cons.inj hfront
        exact hsaid
      | cons _ between =>
        have hlater : after = (between ++ [carrier]) ++ back := by
          rw [(List.cons.inj hfront).2]
          simp
        rw [hlater, said_append]
        exact hsaid.trans (List.sublist_append_right _ _)

/-- Where call ids stand on tool entries only, an entry under the key is all it takes. -/
theorem saidUnderKey_iff {front back : List Entry} {carrier : Entry} {last : String} {trailing : List String}
    (hcalls : ∀ entry ∈ front ++ carrier :: back, isModelSide entry = true → entry.callId.isSome →
      entry.role = "tool_call") (hback : ∀ entry ∈ back, last ∉ identities entry) :
    SaidUnderKey last trailing front carrier back ↔ ∃ entry ∈ front ++ carrier :: back, keyedBy last entry = true := by
  refine ⟨And.left, fun hkeyed => ⟨hkeyed, fun between held after hsplit hheld _ => ?_⟩⟩
  have hmem : held ∈ back := by simp [hsplit]
  obtain ⟨hmodel, hkey⟩ := Bool.and_eq_true_iff.mp hheld
  have hlast := key_eq_getLast hmodel (hcalls held (by simp [hmem]) hmodel)
  rw [beq_iff_eq.mp hkey] at hlast
  exact absurd (List.mem_of_getLast? hlast.symm) (hback held hmem)

/-- Request `q` names no exchange of the session, and of the other exchanges `p` alone said its last
identity; what trails the identity in the request, `p` said after its last entry with it. -/
structure Continues (exchanges : List Exchange) (q p : ℕ) (last : String) (trailing : List String)
    (front : List Entry) (carrier : Entry) (back : List Entry) : Prop where
  asked : ∃ exchange request conversation asks, exchanges[q]? = some exchange ∧
    exchange.request = some request ∧ request.facts = RequestFacts.read conversation ∧
    Conversation.read conversation = some ⟨asks, .complete⟩ ∧
    request.previousResponseId.bind (byResponseId exchanges) = none ∧
    request.facts.lastIdentity = some last ∧ request.facts.trailing = trailing
  answered : ∃ exchange response conversation, exchanges[p]? = some exchange ∧
    exchange.response = some response ∧ response.facts = ResponseFacts.read conversation ∧
    Conversation.read conversation = some ⟨front ++ carrier :: back, .complete⟩
  other : p ≠ q
  only : ∀ k ≠ q, emits exchanges last k = true → k = p
  carries : last ∈ identities carrier
  lastCarrier : ∀ entry ∈ back, last ∉ identities entry
  trails : trailing.Sublist (said back)

theorem Continues.base_keyed_iff {exchanges : List Exchange} {q p : ℕ} {last : String} {trailing : List String}
    {front back : List Entry} {carrier : Entry} (h : Continues exchanges q p last trailing front carrier back) :
    (sessionBases exchanges)[q]? = some (.ok (p, .lastOutput)) ↔ SaidUnderKey last trailing front carrier back := by
  obtain ⟨xq, request, asks, _, hq, hrequest, -, -, hpointer, hlast, htrailing⟩ := h.asked
  obtain ⟨xp, response, answers, hp, hresponse, hanswers, hread⟩ := h.answered
  have hfacts : response.facts = ResponseFacts.ofEntries (front ++ carrier :: back) := by
    rw [hanswers, ResponseFacts.read, conversationEntries, hread]
  have hemits : emits exchanges last p = true := by
    have hmem : last ∈ identitiesOf (front ++ carrier :: back) :=
      List.mem_flatMap.mpr ⟨carrier, by simp, h.carries⟩
    simpa [emits, hp, emittedIds, hresponse, hfacts, ResponseFacts.ofEntries] using hmem
  have hemitter : onlyEmitter [last] q (emitters exchanges) = .ok p := by
    refine onlyEmitter_ok.mpr ⟨h.other, ⟨last, by simp, mem_emitters.mpr hemits⟩, fun id hid k hk => ?_⟩
    rw [List.mem_singleton.mp hid] at hk
    exact or_iff_not_imp_left.mpr fun hne => h.only k hne (mem_emitters.mp hk)
  have hlt : q < exchanges.length := (List.getElem?_eq_some_iff.mp hq).1
  have hbase := findBase_last hq hrequest hpointer hlast hemitter
  have hcontinued : continued p exchanges last request.facts.trailing =
      if saidAfter (skeleton (front ++ carrier :: back)) last trailing then .ok (p, .lastOutput)
      else .error .textOnly := by
    simp [continued, hp, hresponse, hfacts, ResponseFacts.ofEntries, htrailing]
  rw [hcontinued] at hbase
  rw [← saidAfter_iff h.trails]
  cases hsaid : saidAfter (skeleton (front ++ carrier :: back)) last trailing with
  | true =>
    rw [hsaid, if_pos rfl] at hbase
    simp [sessionBases_of_ne hlt hbase (by simp)]
  | false =>
    rw [hsaid, if_neg Bool.false_ne_true] at hbase
    simp [sessionBases_of_ne hlt hbase (by simp)]

end Keys

section Session

open Fixtures

local instance continuedDigest : Sha256 := okDigest

def itemCall : Entry := ⟨"tool_call", "\x7b\x7d", some "c1", some "i1"⟩

def itemReplay : Entry := ⟨"tool_call", "\x7b\x7d", none, some "i1"⟩

/-- The client names the call by its item id, and the call is keyed by its call id. -/
def itemReplayed : List StreamEvent :=
  [ask 1 "p" 1000 [user "go"],
    answer 2 "p" 1500 [itemCall],
    ask 3 "q" 2000 [user "go", itemReplay, user "on"]]

theorem itemReplayed_unlinked :
    Continues (groupExchanges itemReplayed) 1 0 "item:i1" [] [] itemCall [] ∧
      (sessionBases (groupExchanges itemReplayed))[1]? = some (.error .textOnly) := by
  refine ⟨⟨⟨_, _, _, [user "go", itemReplay, user "on"], rfl, rfl, rfl, read_write _, rfl, rfl, rfl⟩,
    ⟨_, _, _, rfl, rfl, rfl, read_write _⟩, by decide, fun k hne hk => ?_, by decide, by decide,
    List.nil_sublist _⟩, rfl⟩
  have hlt : k < 2 := emits_lt hk
  omega

def callReplayed : List StreamEvent :=
  [ask 1 "p" 1000 [user "go"],
    answer 2 "p" 1500 [itemCall, assistant "ok"],
    ask 3 "q" 2000 [user "go", call "c1", user "on"]]

theorem Continues.base_callReplayed :
    (sessionBases (groupExchanges callReplayed))[1]? = some (.ok (0, .lastOutput)) := by
  have hcontinues : Continues (groupExchanges callReplayed) 1 0 "c1" [] [] itemCall [assistant "ok"] := by
    refine ⟨⟨_, _, _, [user "go", call "c1", user "on"], rfl, rfl, rfl, read_write _, rfl, rfl, rfl⟩,
      ⟨_, _, _, rfl, rfl, rfl, read_write _⟩, by decide, fun k hne hk => ?_, by decide, by decide,
      List.nil_sublist _⟩
    have hlt : k < 2 := emits_lt hk
    omega
  exact hcontinues.base_keyed_iff.mpr ⟨⟨itemCall, by decide, by decide⟩, fun _ _ _ _ _ _ => List.nil_sublist _⟩

end Session

end AbyssBackend.Streams
