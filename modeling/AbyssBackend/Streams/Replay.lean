import AbyssBackend.Streams.BaseRules
import AbyssBackend.Streams.Fixtures
import AbyssBackend.Streams.RequestRun

namespace AbyssBackend.Streams

open Conversation Positions Tables Text

theorem saysAll_self (said : List String) : saysAll said said = true := by
  induction said with
  | nil => rfl
  | cons role said ih => simp [saysAll, ih]

theorem findBase_last {exchanges : List Exchange} {index emitter : ℕ} {exchange : Exchange}
    {request : Side RequestFacts} {last : String} {byResponseId : Table String ℕ}
    {byId : String → List ℕ} (hx : exchanges[index]? = some exchange)
    (hrequest : exchange.request = some request)
    (hpointer : request.previousResponseId.bind byResponseId = none)
    (hlast : request.facts.lastIdentity = some last)
    (honly : onlyEmitter [last] index byId = .ok emitter) :
    findBase index exchanges byResponseId byId =
      continued emitter exchanges last request.facts.trailing := by
  simp only [findBase, hx, Option.bind_some, hrequest, hpointer, hlast, honly]
  rfl

section Skeleton

variable [Sha256]

theorem skeleton_roles (entries : List Entry) :
    ((skeleton entries).map Prod.fst).filter modelRoles.contains =
      (entries.filter isModelSide).map fun entry => entry.role := by
  simp only [skeleton, List.map_map, Function.comp_def, List.filter_map]
  rfl

theorem saidAfter_answer {front back : List Entry} {held : Entry} {last : String}
    (hheld : identities held ≠ []) (hback : ∀ entry ∈ back, identities entry = [])
    (hcalls : ∀ entry ∈ held :: back, isModelSide entry = true → entry.callId.isSome →
      entry.role = "tool_call")
    (hlast : (identities held).getLast? = some last) :
    saidAfter (skeleton (front ++ held :: back)) last
      ((back.filter isModelSide).map fun entry => entry.role) = true := by
  have hmodel := isModelSide_of_identities hheld
  have hkey : key held = some last := by
    rw [key_eq_getLast hmodel (hcalls held (by simp) hmodel), hlast]
  have hat : rposition (fun entry : SkeletonEntry => modelRoles.contains entry.1 && entry.2 == some last)
      (skeleton (front ++ held :: back)) = some (skeleton front).length := by
    simp only [skeleton, List.map_append, List.map_cons]
    apply rposition_append_cons
    · simpa [hkey, isModelSide] using hmodel
    · intro said hs
      obtain ⟨entry, he, rfl⟩ := List.mem_map.mp hs
      by_cases hm : isModelSide entry = true
      · have hnone : key entry = none := by
          rw [key_eq_getLast hm (hcalls entry (by simp [he]) hm), hback entry he]
          rfl
        simp [hnone]
      · have hrole : entry.role ∉ modelRoles := by simpa [isModelSide] using hm
        simp [hrole]
  have hdrop : (skeleton (front ++ held :: back)).drop ((skeleton front).length + 1) = skeleton back := by
    simp [skeleton, List.drop_append]
  simp only [saidAfter, hat, hdrop, skeleton_roles]
  exact saysAll_self _

end Skeleton

/-- Request `q` carries the whole answer of exchange `p` between what came before it and what is
new, and names no exchange of the session as the one it continues. -/
structure Replays [Sha256] (exchanges : List Exchange) (q p : ℕ) (before answer new : List Entry) : Prop where
  asked : ∃ exchange request conversation, exchanges[q]? = some exchange ∧
    exchange.request = some request ∧ request.facts = RequestFacts.read conversation ∧
    Conversation.read conversation = some ⟨before ++ answer ++ new, .complete⟩ ∧
    ∀ responseId, request.previousResponseId = some responseId →
      ∀ other ∈ exchanges, other.responseId ≠ some responseId
  answered : ∃ exchange response conversation, exchanges[p]? = some exchange ∧
    exchange.response = some response ∧ response.facts = ResponseFacts.read conversation ∧
    Conversation.read conversation = some ⟨answer, .complete⟩
  other : p ≠ q
  output : ∀ entry ∈ answer, isModelSide entry = true ∨ entry.role = "tool_result"
  calls : ∀ entry ∈ answer, entry.callId.isSome → entry.role = "tool_call" ∨ entry.role = "tool_result"
  identified : ∃ entry ∈ answer, identities entry ≠ []
  fresh : ∀ entry ∈ new, isModelSide entry = false

theorem Replays.base [Sha256] {exchanges : List Exchange} {q p : ℕ} {before answer new : List Entry}
    (h : Replays exchanges q p before answer new)
    (honly : ∀ last ∈ (identitiesOf answer).getLast?, ∀ k, emits exchanges last k = true → k = p ∨ k = q) :
    (sessionBases exchanges)[q]? = some (.ok (p, .lastOutput)) := by
  obtain ⟨xq, request, asks, hq, hrequest, hasks, hread, hprevious⟩ := h.asked
  obtain ⟨xp, response, answers, hp, hresponse, hanswers, hread'⟩ := h.answered
  have hfacts : request.facts = RequestFacts.ofEntries (before ++ answer ++ new) := by
    rw [hasks, RequestFacts.read, conversationEntries, hread]
  have hfacts' : response.facts = ResponseFacts.ofEntries answer := by
    rw [hanswers, ResponseFacts.read, conversationEntries, hread']
  obtain ⟨front, held, back, hsplit, hresent⟩ := resent_facts before h.output h.identified h.fresh
  obtain ⟨last, hlast⟩ : ∃ last, (identities held).getLast? = some last :=
    ⟨_, List.getLast?_eq_some_getLast hresent.identified⟩
  have hlastIdentity : request.facts.lastIdentity = some last := by rw [hfacts, hresent.last, hlast]
  have hansweredLast : (identitiesOf answer).getLast? = some last := by
    have hnone : identitiesOf back = [] := identitiesOf_eq_nil hresent.unidentified
    have hids : identitiesOf (held :: back) = identities held := by
      simpa [identitiesOf] using hnone
    rw [hsplit, identitiesOf_append, hids, List.getLast?_append, hlast]
    rfl
  have hemits : emits exchanges last p = true := by
    have hmem := List.mem_of_getLast? hansweredLast
    simpa [emits, hp, emittedIds, hresponse, hfacts', ResponseFacts.ofEntries] using hmem
  have hpointer : request.previousResponseId.bind (byResponseId exchanges) = none := by
    cases hprev : request.previousResponseId with
    | none => rfl
    | some responseId => exact byResponseId_eq_none (hprevious responseId hprev)
  have hemitter : onlyEmitter [last] q (emitters exchanges) = .ok p := by
    refine onlyEmitter_ok.mpr ⟨h.other, ⟨last, by simp, mem_emitters.mpr hemits⟩, ?_⟩
    intro id hid k hk
    rw [List.mem_singleton.mp hid] at hk
    exact (honly last hansweredLast k (mem_emitters.mp hk)).symm
  have hsaid : saidAfter (skeleton answer) last request.facts.trailing = true := by
    rw [hfacts, hresent.trailing, hsplit]
    refine saidAfter_answer hresent.identified hresent.unidentified ?_ hlast
    intro entry he hmodel hcall
    have hmem : entry ∈ answer := by rw [hsplit]; exact List.mem_append_right _ he
    apply (h.calls entry hmem hcall).resolve_right
    intro hrole
    simp [isModelSide, hrole, modelRoles] at hmodel
  have hlt : q < exchanges.length := (List.getElem?_eq_some_iff.mp hq).1
  rw [sessionBases_getElem? hlt, findBase_last hq hrequest hpointer hlastIdentity hemitter]
  simp [continued, hp, hresponse, hfacts', ResponseFacts.ofEntries, hsaid]

section Session

open Fixtures

local instance resentDigest : Sha256 := okDigest

def resentSession : List StreamEvent :=
  [ask 1 "p" 1000 [user "go"],
    answer 2 "p" 1500 [assistant "ok", call "c1"],
    ask 3 "q" 2000 [user "go", assistant "ok", call "c1", result "c1"]]

theorem Replays.base_resentSession :
    (sessionBases (groupExchanges resentSession))[1]? = some (.ok (0, .lastOutput)) := by
  have hreplays : Replays (groupExchanges resentSession) 1 0 [user "go"] [assistant "ok", call "c1"]
      [result "c1"] := by
    refine ⟨⟨_, _, _, rfl, rfl, rfl, read_write _, fun _ h => ?_⟩, ⟨_, _, _, rfl, rfl, rfl, read_write _⟩,
      by decide, by decide, by decide, ⟨call "c1", by decide, by decide⟩, by decide⟩
    cases h
  apply hreplays.base
  intro last _ k hk
  have hlt : k < 2 := emits_lt hk
  omega

end Session

end AbyssBackend.Streams
