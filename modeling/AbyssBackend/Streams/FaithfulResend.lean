import AbyssBackend.Library.Attempts
import AbyssBackend.Library.Groups
import AbyssBackend.Streams.BaseRules
import AbyssBackend.Streams.Fixtures
import AbyssBackend.Streams.RequestRun
import Mathlib.Tactic.IntervalCases

namespace AbyssBackend.Streams

open Attempts Conversation Groups Positions Text

theorem saidAfter_nil (output : List SkeletonEntry) (last : String) :
    saidAfter output last [] =
      output.any fun entry => modelRoles.contains entry.1 && entry.2 == some last := by
  cases hat : rposition (fun entry : SkeletonEntry => modelRoles.contains entry.1 && entry.2 == some last)
      output with
  | none =>
    have hnone := rposition_eq_none.mp hat
    simp only [saidAfter, hat]
    exact (List.any_eq_false.mpr fun entry he => by simpa using hnone entry he).symm
  | some held =>
    obtain ⟨front, entry, back, rfl, -, hentry, -⟩ := rposition_split hat
    simp only [saidAfter, hat, saysAll]
    exact (List.any_eq_true.mpr ⟨entry, by simp, hentry⟩).symm

theorem continued_error {emitter : ℕ} {exchanges : List Exchange} {last : String}
    {trailing : List String} {reason : NoBaseReason}
    (h : continued emitter exchanges last trailing = .error reason) : reason = .textOnly := by
  simp only [continued] at h
  split_ifs at h
  exact (Except.error.inj h).symm

def chosen (kept : List ℕ) (exchanges : List Exchange) (last : String) (trailing : List String) : Base :=
  match kept with
  | [emitter] => continued emitter exchanges last trailing
  | [] => .error .unknownIds
  | _ :: _ :: _ => .error .multipleResponses

theorem chosen_ok {kept : List ℕ} {exchanges : List Exchange} {last : String} {trailing : List String}
    {b : ℕ} {rule : BaseRule} :
    chosen kept exchanges last trailing = .ok (b, rule) ↔
      kept = [b] ∧ continued b exchanges last trailing = .ok (b, rule) := by
  match kept with
  | [] => simp [chosen]
  | _ :: _ :: _ => simp [chosen]
  | [emitter] =>
    simp only [chosen, List.cons.injEq, and_true]
    constructor
    · intro hok
      have hb : emitter = b := by
        simp only [continued] at hok
        split_ifs at hok
        exact (Prod.mk.inj (Except.ok.inj hok)).1
      exact ⟨hb, hb ▸ hok⟩
    · rintro ⟨rfl, hok⟩
      exact hok

theorem tellApart_eq {index : ℕ} {exchanges : List Exchange} {byId : String → List ℕ} {first : List Base}
    {request : Side RequestFacts} {last : String}
    (hrequest : exchanges[index]?.bind Exchange.request = some request)
    (hlast : request.facts.lastIdentity = some last) :
    tellApart index exchanges byId first =
      match request.facts.previousIdentity with
      | some previous =>
        match onlyEmitter [previous] index byId with
        | .ok before => some (chosen ((byId last).filter fun emitter =>
            emitter != index && sawBefore first before emitter) exchanges last request.facts.trailing)
        | .error _ => none
      | none => some (chosen ((byId last).filter fun emitter =>
          emitter != index && saidFirstWithoutContext exchanges first last emitter)
            exchanges last request.facts.trailing) := by
  simp only [tellApart, hrequest, hlast, Option.bind_eq_bind, Option.bind_some]
  cases request.facts.previousIdentity with
  | none => rfl
  | some previous => cases onlyEmitter [previous] index byId <;> rfl

section Tree

variable [Sha256]

/-- Exchanges that resend their parent's context as it grew: what each asks and what it answers. -/
structure ResentTree where
  count : ℕ
  parent : ℕ → Option ℕ
  asks : ℕ → List Entry
  answers : ℕ → List Entry
  answered : ∀ k < count, answers k ≠ []
  identified : ∀ k < count, ∀ entry ∈ answers k, isModelSide entry = true ∧ identities entry ≠ []
  root : ∀ k < count, parent k = none →
    ∀ entry ∈ asks k, isModelSide entry = false ∧ entry.role ≠ "tool_result"
  child : ∀ k < count, ∀ p, parent k = some p → p < count ∧ ∃ new, new ≠ [] ∧
    (∀ entry ∈ new, isModelSide entry = false) ∧ asks k = asks p ++ answers p ++ new

namespace ResentTree

/-- The exchanges are those of the tree, in its order, and none names the one it continues. -/
structure Recorded (tree : ResentTree) (exchanges : List Exchange) : Prop where
  length : exchanges.length = tree.count
  sides : ∀ k < tree.count, ∃ exchange request response conversation answer,
    exchanges[k]? = some exchange ∧
    exchange.request = some request ∧ exchange.response = some response ∧
    request.previousResponseId = none ∧
    request.facts = RequestFacts.read conversation ∧ conversationEntries conversation = tree.asks k ∧
    response.facts = ResponseFacts.read answer ∧ conversationEntries answer = tree.answers k

def lastOf (entries : List Entry) : Option String := (identitiesOf entries).getLast?

def otherThan (last : String) (entries : List Entry) : Option String :=
  (identitiesOf entries).reverse.find? fun identity => identity != last

def Says (tree : ResentTree) (identity : String) (k : ℕ) : Prop :=
  k < tree.count ∧ identity ∈ identitiesOf (tree.answers k)

def Keyed (tree : ResentTree) (identity : String) (k : ℕ) : Prop :=
  ∃ entry ∈ tree.answers k, key entry = some identity

def SaysAlone (tree : ResentTree) (identity : String) (own k : ℕ) : Prop :=
  k ≠ own ∧ tree.Says identity k ∧ ∀ j, tree.Says identity j → j = own ∨ j = k

def Follows (tree : ResentTree) (k p : ℕ) : Prop :=
  tree.parent k = some p ∧ ∃ last, lastOf (tree.answers p) = some last ∧
    tree.SaysAlone last k p ∧ tree.Keyed last p

/-- Exchange `k` stands where request `i` has `last`: at the one exchange that says the identity
before it or right after that one; with no other identity before it, at a root that says it first. -/
def Stands (tree : ResentTree) (i : ℕ) (last : String) (k : ℕ) : Prop :=
  match otherThan last (tree.asks i) with
  | some other => ∃ before, tree.SaysAlone other i before ∧ (k = before ∨ tree.Follows k before)
  | none => tree.parent k = none ∧ (identitiesOf (tree.answers k)).head? = some last

def Candidate (tree : ResentTree) (i : ℕ) (last : String) (k : ℕ) : Prop :=
  k ≠ i ∧ tree.Says last k ∧ tree.Stands i last k

/-- Several exchanges say what `p` said last, and the only candidate among them is not `p`. -/
def Misled (tree : ResentTree) (i p : ℕ) : Prop :=
  ∃ last, lastOf (tree.asks i) = some last ∧ ∃ b ≠ p, tree.Keyed last b ∧
    ∀ k, tree.Candidate i last k ↔ k = b

variable {tree : ResentTree} {exchanges : List Exchange}

theorem parent_lt {k p : ℕ} (hk : k < tree.count) (hp : tree.parent k = some p) : p < tree.count :=
  (tree.child k hk p hp).1

theorem parent_ne {k p : ℕ} (hk : k < tree.count) (hp : tree.parent k = some p) : p ≠ k := by
  rintro rfl
  obtain ⟨-, new, hne, -, hasks⟩ := tree.child p hk p hp
  have hlen := congrArg List.length hasks
  have hpos := List.length_pos_of_ne_nil hne
  simp only [List.length_append] at hlen
  omega

theorem lastOf_asks {k p : ℕ} (hk : k < tree.count) (hp : tree.parent k = some p) :
    ∃ last, lastOf (tree.asks k) = some last ∧ lastOf (tree.answers p) = some last := by
  obtain ⟨hlt, new, -, hnew, hasks⟩ := tree.child k hk p hp
  have hnone : identitiesOf new = [] := identitiesOf_eq_nil fun entry he => identities_eq_nil (hnew entry he)
  obtain ⟨entry, he⟩ := List.exists_mem_of_ne_nil _ (tree.answered p hlt)
  have hne : identitiesOf (tree.answers p) ≠ [] := by
    intro hnil
    exact (tree.identified p hlt entry he).2 (List.flatMap_eq_nil_iff.mp hnil entry he)
  obtain ⟨last, hlast⟩ : ∃ last, lastOf (tree.answers p) = some last :=
    ⟨_, List.getLast?_eq_some_getLast hne⟩
  refine ⟨last, ?_, hlast⟩
  rw [lastOf] at hlast
  simp [lastOf, hasks, hnone, List.getLast?_append, hlast]

theorem says_parent {k p : ℕ} {last : String} (hk : k < tree.count) (hp : tree.parent k = some p)
    (hlast : lastOf (tree.asks k) = some last) : tree.Says last p := by
  obtain ⟨last', hlast', hanswer⟩ := lastOf_asks hk hp
  obtain rfl : last' = last := by simpa [hlast'] using hlast
  exact ⟨parent_lt hk hp, List.mem_of_getLast? hanswer⟩

namespace Recorded

theorem request {k : ℕ} (h : tree.Recorded exchanges) (hk : k < tree.count) :
    ∃ request, exchanges[k]?.bind Exchange.request = some request ∧ request.previousResponseId = none ∧
      request.facts = RequestFacts.ofEntries (tree.asks k) := by
  obtain ⟨exchange, request, response, conversation, answer, hx, hrequest, -, hprevious, hfacts, hasks, -⟩ :=
    h.sides k hk
  exact ⟨request, by rw [hx]; exact hrequest, hprevious, by rw [hfacts, RequestFacts.read, hasks]⟩

theorem response {k : ℕ} (h : tree.Recorded exchanges) (hk : k < tree.count) :
    ∃ response, exchanges[k]?.bind Exchange.response = some response ∧
      response.facts = ResponseFacts.ofEntries (tree.answers k) := by
  obtain ⟨exchange, request, response, conversation, answer, hx, -, hresponse, -, -, -, hfacts, hanswers⟩ :=
    h.sides k hk
  exact ⟨response, by rw [hx]; exact hresponse, by rw [hfacts, ResponseFacts.read, hanswers]⟩

theorem emits_iff (h : tree.Recorded exchanges) {identity : String} {k : ℕ} :
    emits exchanges identity k = true ↔ tree.Says identity k := by
  constructor
  · intro hk
    have hlt : k < tree.count := h.length ▸ emits_lt hk
    obtain ⟨exchange, _, response, _, answer, hx, -, hresponse, -, -, -, hfacts, hanswers⟩ := h.sides k hlt
    refine ⟨hlt, ?_⟩
    simpa [emits, hx, emittedIds, hresponse, hfacts, ResponseFacts.read, ResponseFacts.ofEntries,
      hanswers] using hk
  · rintro ⟨hlt, hmem⟩
    obtain ⟨exchange, _, response, _, answer, hx, -, hresponse, -, -, -, hfacts, hanswers⟩ := h.sides k hlt
    simpa [emits, hx, emittedIds, hresponse, hfacts, ResponseFacts.read, ResponseFacts.ofEntries,
      hanswers] using hmem

theorem mem_emitters_iff (h : tree.Recorded exchanges) {identity : String} {k : ℕ} :
    k ∈ emitters exchanges identity ↔ tree.Says identity k :=
  mem_emitters.trans h.emits_iff

theorem onlyEmitter_iff (h : tree.Recorded exchanges) {identity : String} {own k : ℕ} :
    onlyEmitter [identity] own (emitters exchanges) = .ok k ↔ tree.SaysAlone identity own k := by
  simp only [onlyEmitter_ok, List.mem_singleton, exists_eq_left, forall_eq, h.mem_emitters_iff, SaysAlone]

theorem findBase_root (h : tree.Recorded exchanges) {k : ℕ} (hk : k < tree.count)
    (hroot : tree.parent k = none) :
    findBase k exchanges (byResponseId exchanges) (emitters exchanges) = .error .noOutput := by
  obtain ⟨request, hrequest, hprevious, hfacts⟩ := h.request hk
  have hmodel : rposition isModelSide (tree.asks k) = none :=
    rposition_eq_none.mpr fun entry he => (tree.root k hk hroot entry he).1
  have hresults : resultIds (tree.asks k) = [] := by
    simp only [resultIds]
    rw [List.filter_eq_nil_iff.mpr]
    · rfl
    · intro entry he
      simpa using (tree.root k hk hroot entry he).2
  simp [findBase, hrequest, hprevious, hfacts, RequestFacts.ofEntries, hmodel, hresults]

theorem child_facts (h : tree.Recorded exchanges) {k p : ℕ} {last : String} (hk : k < tree.count)
    (hp : tree.parent k = some p) (hlast : lastOf (tree.asks k) = some last) :
    ∃ request, exchanges[k]?.bind Exchange.request = some request ∧ request.previousResponseId = none ∧
      request.facts.lastIdentity = some last ∧ request.facts.trailing = [] ∧
      request.facts.previousIdentity = otherThan last (tree.asks k) := by
  obtain ⟨request, hrequest, hprevious, hfacts⟩ := h.request hk
  obtain ⟨hlt, new, -, hnew, hasks⟩ := tree.child k hk p hp
  obtain ⟨last', hlast', hanswer⟩ := lastOf_asks hk hp
  obtain rfl : last' = last := by simpa [hlast'] using hlast
  have hmodel : ∀ entry ∈ tree.answers p, isModelSide entry = true ∨ entry.role = "tool_result" :=
    fun entry he => Or.inl (tree.identified p hlt entry he).1
  obtain ⟨entry, he⟩ := List.exists_mem_of_ne_nil _ (tree.answered p hlt)
  obtain ⟨front, held, back, hsplit, hresent⟩ :=
    resent_facts (tree.asks p) hmodel ⟨entry, he, (tree.identified p hlt entry he).2⟩ hnew
  -- Every entry of the answer is identified, so the held one is its last.
  obtain rfl : back = [] := by
    apply List.eq_nil_iff_forall_not_mem.mpr
    intro entry he
    have hmem : entry ∈ tree.answers p := by simp [hsplit, he]
    exact (tree.identified p hlt entry hmem).2 (hresent.unidentified entry he)
  have hheld : (identities held).getLast? = some last' := by
    have hids : identitiesOf (tree.answers p) = identitiesOf front ++ identities held := by
      simp [hsplit, identitiesOf]
    obtain ⟨final, hfinal⟩ : ∃ final, (identities held).getLast? = some final :=
      ⟨_, List.getLast?_eq_some_getLast hresent.identified⟩
    rw [lastOf, hids, List.getLast?_append, hfinal] at hanswer
    rw [hfinal]
    exact hanswer
  rw [← hasks, ← hfacts] at hresent
  have hlastIdentity : request.facts.lastIdentity = some last' := hresent.last.trans hheld
  exact ⟨request, hrequest, hprevious, hlastIdentity, hresent.trailing, hresent.previous last' hlastIdentity⟩

theorem continued_ok (h : tree.Recorded exchanges) {last : String} {k b : ℕ} {rule : BaseRule}
    (hk : k < tree.count) :
    continued k exchanges last [] = .ok (b, rule) ↔ b = k ∧ rule = .lastOutput ∧ tree.Keyed last k := by
  obtain ⟨response, hresponse, hfacts⟩ := h.response hk
  have hsaid : saidAfter (skeleton (tree.answers k)) last [] = true ↔ tree.Keyed last k := by
    rw [saidAfter_nil, Keyed]
    simp only [skeleton, List.any_map, List.any_eq_true, Function.comp_apply, Bool.and_eq_true,
      beq_iff_eq]
    exact ⟨fun ⟨entry, he, _, hkey⟩ => ⟨entry, he, hkey⟩,
      fun ⟨entry, he, hkey⟩ => ⟨entry, he, (tree.identified k hk entry he).1, hkey⟩⟩
  simp only [continued, hresponse, hfacts, ResponseFacts.ofEntries]
  by_cases hkeyed : tree.Keyed last k
  · simp [hsaid.mpr hkeyed, hkeyed, eq_comm]
  · simp [mt hsaid.mp hkeyed, hkeyed]

theorem findBase_child (h : tree.Recorded exchanges) {k p : ℕ} {last : String} (hk : k < tree.count)
    (hp : tree.parent k = some p) (hlast : lastOf (tree.asks k) = some last) :
    findBase k exchanges (byResponseId exchanges) (emitters exchanges) =
      onlyEmitter [last] k (emitters exchanges) >>= fun emitter =>
        continued emitter exchanges last [] := by
  obtain ⟨request, hrequest, hprevious, hlastIdentity, htrailing, -⟩ := h.child_facts hk hp hlast
  simp only [findBase, hrequest, hprevious, hlastIdentity, htrailing]
  rfl

theorem saysAlone_parent {k p b : ℕ} {last : String} (hk : k < tree.count) (hp : tree.parent k = some p)
    (hlast : lastOf (tree.asks k) = some last) (hb : tree.SaysAlone last k b) : b = p :=
  ((hb.2.2 p (says_parent hk hp hlast)).resolve_left (parent_ne hk hp)).symm

theorem findBase_ok (h : tree.Recorded exchanges) {k b : ℕ} {rule : BaseRule} (hk : k < tree.count) :
    findBase k exchanges (byResponseId exchanges) (emitters exchanges) = .ok (b, rule) ↔
      rule = .lastOutput ∧ tree.Follows k b := by
  cases hp : tree.parent k with
  | none => simp [h.findBase_root hk hp, Follows, hp]
  | some p =>
    obtain ⟨last, hlast, hanswer⟩ := lastOf_asks hk hp
    rw [h.findBase_child hk hp hlast, bind_eq_ok]
    constructor
    · rintro ⟨emitter, hemitter, hok⟩
      have halone := h.onlyEmitter_iff.mp hemitter
      obtain ⟨rfl, hrule, hkeyed⟩ := (h.continued_ok halone.2.1.1).mp hok
      obtain rfl := saysAlone_parent hk hp hlast halone
      exact ⟨hrule, hp, last, hanswer, halone, hkeyed⟩
    · rintro ⟨hrule, hparent, last', hlast', halone, hkeyed⟩
      obtain rfl : p = b := by simpa [hp] using hparent
      obtain rfl : last = last' := by simpa [hanswer] using hlast'
      exact ⟨p, h.onlyEmitter_iff.mpr halone, (h.continued_ok halone.2.1.1).mpr ⟨rfl, hrule, hkeyed⟩⟩

theorem findBase_noOutput (h : tree.Recorded exchanges) {k : ℕ} (hk : k < tree.count) :
    findBase k exchanges (byResponseId exchanges) (emitters exchanges) = .error .noOutput ↔
      tree.parent k = none := by
  refine ⟨fun herror => ?_, h.findBase_root hk⟩
  cases hp : tree.parent k with
  | none => rfl
  | some p =>
    obtain ⟨last, hlast, -⟩ := lastOf_asks hk hp
    rw [h.findBase_child hk hp hlast, bind_eq_error] at herror
    rcases herror with hemitter | ⟨emitter, -, hcontinued⟩
    · rcases onlyEmitterLoop_error hemitter with h | h <;> cases h
    · cases continued_error hcontinued

theorem firstBases_get (h : tree.Recorded exchanges) {k : ℕ} (hk : k < tree.count) :
    (firstBases exchanges)[k]? =
      some (findBase k exchanges (byResponseId exchanges) (emitters exchanges)) :=
  firstBases_getElem? (h.length ▸ hk)

theorem sawBefore_iff (h : tree.Recorded exchanges) {k before : ℕ} (hk : k < tree.count) :
    sawBefore (firstBases exchanges) before k = true ↔ k = before ∨ tree.Follows k before := by
  rw [sawBefore, h.firstBases_get hk, Bool.or_eq_true, beq_iff_eq]
  apply or_congr_right
  cases hbase : findBase k exchanges (byResponseId exchanges) (emitters exchanges) with
  | error reason =>
    apply iff_of_false (by simp)
    intro hfollows
    have hok := (h.findBase_ok hk).mpr ⟨rfl, hfollows⟩
    rw [hbase] at hok
    cases hok
  | ok found =>
    obtain ⟨base, rule⟩ := found
    obtain ⟨rfl, hfollows⟩ := (h.findBase_ok hk).mp hbase
    simp only [beq_iff_eq]
    refine ⟨fun heq => heq ▸ hfollows, fun hbefore => ?_⟩
    exact Option.some.inj (hfollows.1.symm.trans hbefore.1)

theorem saidFirst_iff (h : tree.Recorded exchanges) {k : ℕ} {last : String} (hk : k < tree.count) :
    saidFirstWithoutContext exchanges (firstBases exchanges) last k = true ↔
      tree.parent k = none ∧ (identitiesOf (tree.answers k)).head? = some last := by
  obtain ⟨request, hrequest, hprevious, -⟩ := h.request hk
  obtain ⟨response, hresponse, hfacts⟩ := h.response hk
  simp only [saidFirstWithoutContext, h.firstBases_get hk, hrequest, hresponse, hprevious, hfacts,
    ResponseFacts.ofEntries, Bool.and_eq_true, beq_iff_eq, Option.some.injEq, h.findBase_noOutput hk,
    Option.any_some, Option.isNone_none, and_true, Option.bind_some]

theorem kept_eq_singleton (h : tree.Recorded exchanges) {i b : ℕ} {last : String} {saw : ℕ → Bool}
    (hsaw : ∀ k < tree.count, saw k = true ↔ tree.Stands i last k) :
    ((emitters exchanges last).filter fun emitter => emitter != i && saw emitter) = [b] ↔
      ∀ k, tree.Candidate i last k ↔ k = b := by
  rw [eq_singleton_iff ((emitters_nodup exchanges last).filter _)]
  refine forall_congr' fun k => iff_congr ?_ Iff.rfl
  rw [List.mem_filter, h.mem_emitters_iff, Bool.and_eq_true, bne_iff_ne, Candidate]
  constructor
  · rintro ⟨hsay, hne, hk⟩
    exact ⟨hne, hsay, (hsaw k hsay.1).mp hk⟩
  · rintro ⟨hne, hsay, hstands⟩
    exact ⟨hsay, hne, (hsaw k hsay.1).mpr hstands⟩

theorem tellApart_ok (h : tree.Recorded exchanges) {i p b : ℕ} {last : String} (hi : i < tree.count)
    (hp : tree.parent i = some p) (hlast : lastOf (tree.asks i) = some last) :
    tellApart i exchanges (emitters exchanges) (firstBases exchanges) = some (.ok (b, .lastOutput)) ↔
      tree.Keyed last b ∧ ∀ k, tree.Candidate i last k ↔ k = b := by
  obtain ⟨request, hrequest, -, hlastIdentity, htrailing, hprevious⟩ := h.child_facts hi hp hlast
  have hchosen {saw : ℕ → Bool} (hsaw : ∀ k < tree.count, saw k = true ↔ tree.Stands i last k) :
      chosen ((emitters exchanges last).filter fun emitter => emitter != i && saw emitter)
          exchanges last [] = .ok (b, .lastOutput) ↔
        tree.Keyed last b ∧ ∀ k, tree.Candidate i last k ↔ k = b := by
    rw [chosen_ok, h.kept_eq_singleton hsaw, and_comm]
    apply and_congr_left
    intro hcandidates
    have hb : b < tree.count := ((hcandidates b).mpr rfl).2.1.1
    simp [h.continued_ok hb]
  cases hother : otherThan last (tree.asks i) with
  | none =>
    rw [tellApart_eq hrequest hlastIdentity, hprevious, hother, htrailing]
    simp only [Option.some.injEq]
    apply hchosen
    intro k hk
    simp only [h.saidFirst_iff hk, Stands, hother]
  | some other =>
    rw [tellApart_eq hrequest hlastIdentity, hprevious, hother, htrailing]
    cases hbefore : onlyEmitter [other] i (emitters exchanges) with
    | ok before =>
      have halone := h.onlyEmitter_iff.mp hbefore
      simp only [hbefore, Option.some.injEq]
      apply hchosen
      intro k hk
      simp only [h.sawBefore_iff hk, Stands, hother]
      refine ⟨fun hk => ⟨before, halone, hk⟩, ?_⟩
      rintro ⟨before', halone', hk⟩
      rwa [(halone'.2.2 before halone.2.1).resolve_left halone.1]
    | error reason =>
      refine iff_of_false (by simp [hbefore]) fun ⟨_, hcandidates⟩ => ?_
      obtain ⟨-, -, hstands⟩ := (hcandidates b).mpr rfl
      simp only [Stands, hother] at hstands
      obtain ⟨before, halone, -⟩ := hstands
      rw [h.onlyEmitter_iff.mpr halone] at hbefore
      cases hbefore

/-- A child's base is the one exchange that says its last identity, else the only candidate. -/
theorem base_iff (h : tree.Recorded exchanges) {i p b : ℕ} {last : String} (hi : i < tree.count)
    (hp : tree.parent i = some p) (hlast : lastOf (tree.asks i) = some last) :
    (sessionBases exchanges)[i]? = some (.ok (b, .lastOutput)) ↔
      tree.Keyed last b ∧ (tree.SaysAlone last i b ∨
        (∀ k, ¬ tree.SaysAlone last i k) ∧ ∀ k, tree.Candidate i last k ↔ k = b) := by
  have hlt : i < exchanges.length := h.length ▸ hi
  have hfound := h.findBase_child hi hp hlast
  cases honly : onlyEmitter [last] i (emitters exchanges) with
  | ok emitter =>
    have halone := h.onlyEmitter_iff.mp honly
    have hunique : ∀ k, tree.SaysAlone last i k → k = emitter := fun k hk =>
      (saysAlone_parent hi hp hlast hk).trans (saysAlone_parent hi hp hlast halone).symm
    have hcontinued : findBase i exchanges (byResponseId exchanges) (emitters exchanges) =
        continued emitter exchanges last [] := by
      rw [hfound, honly]
      rfl
    have hne : continued emitter exchanges last [] ≠ .error .multipleResponses :=
      fun herror => by cases continued_error herror
    rw [sessionBases_of_ne hlt hcontinued hne, Option.some.injEq, h.continued_ok halone.2.1.1]
    constructor
    · rintro ⟨rfl, -, hkeyed⟩
      exact ⟨hkeyed, Or.inl halone⟩
    · rintro ⟨hkeyed, hb | ⟨hnone, -⟩⟩
      · obtain rfl := hunique b hb
        exact ⟨rfl, rfl, hkeyed⟩
      · exact absurd halone (hnone emitter)
  | error reason =>
    have hnone : ∀ k, ¬ tree.SaysAlone last i k := by
      intro k hk
      rw [h.onlyEmitter_iff.mpr hk] at honly
      cases honly
    have hreason : reason = .multipleResponses := by
      apply (onlyEmitterLoop_error honly).resolve_left
      rintro rfl
      have hmem := h.mem_emitters_iff.mpr (says_parent hi hp hlast)
      exact parent_ne hi hp (onlyEmitter_unknown.mp honly last (by simp) p hmem)
    rw [honly, hreason] at hfound
    have hget : ∀ found : Option Base, found.getD (.error .multipleResponses) = .ok (b, .lastOutput) ↔
        found = some (.ok (b, .lastOutput)) := by
      rintro (_ | found) <;> simp
    rw [sessionBases_of_multiple hlt hfound, Option.some.injEq, hget, h.tellApart_ok hi hp hlast]
    simp [hnone]

theorem base_eq_parent_iff (h : tree.Recorded exchanges) {i p : ℕ} (hi : i < tree.count)
    (hp : tree.parent i = some p) :
    (∀ b, (sessionBases exchanges)[i]? = some (.ok (b, .lastOutput)) → b = p) ↔ ¬ tree.Misled i p := by
  obtain ⟨last, hlast, -⟩ := lastOf_asks hi hp
  constructor
  · rintro hbases ⟨last', hlast', b, hne, hkeyed, hcandidates⟩
    obtain rfl : last = last' := by simpa [hlast] using hlast'
    refine hne (hbases b ((h.base_iff hi hp hlast).mpr ⟨hkeyed, Or.inr ⟨fun k hk => ?_, hcandidates⟩⟩))
    -- `b` and `p` both say the identity, so nobody says it alone.
    obtain ⟨hbi, hsay, -⟩ := (hcandidates b).mpr rfl
    rcases hk.2.2 b hsay with hb | rfl
    · exact hbi hb
    · exact hne (saysAlone_parent hi hp hlast hk)
  · intro hmisled b hb
    by_contra hne
    obtain ⟨hkeyed, halone | ⟨-, hcandidates⟩⟩ := (h.base_iff hi hp hlast).mp hb
    · exact hne (saysAlone_parent hi hp hlast halone)
    · exact hmisled ⟨last, hlast, b, hne, hkeyed, hcandidates⟩

end Recorded

end ResentTree

end Tree

namespace ResentTree

open Fixtures

local instance repeatedDigest : Sha256 := okDigest

def repeatedAnswers : List StreamEvent :=
  [ask 1 "r" 1000 [user "hi"],
    answer 2 "r" 1500 [assistant "ok"],
    ask 3 "c" 2000 [user "hi", assistant "ok", user "more"],
    answer 4 "c" 2500 [assistant "ok"],
    ask 5 "i" 3000 [user "hi", assistant "ok", user "more", assistant "ok", user "more"],
    answer 6 "i" 3500 [assistant "ok"]]

def repeatedAsks : ℕ → List Entry
  | 0 => [user "hi"]
  | k + 1 => repeatedAsks k ++ [assistant "ok"] ++ [user "more"]

def repeatedParent : ℕ → Option ℕ
  | 0 => none
  | k + 1 => some k

def repeatedTree : ResentTree where
  count := 3
  parent := repeatedParent
  asks := repeatedAsks
  answers _ := [assistant "ok"]
  answered := by simp
  identified := by decide
  root := by
    rintro (_ | k) - hparent
    · decide
    · cases hparent
  child := by
    rintro (_ | k) hk p hparent
    · cases hparent
    · cases hparent
      exact ⟨by omega, [user "more"], by simp, by decide, rfl⟩

theorem repeatedTree_recorded :
    repeatedTree.Recorded (groupExchanges repeatedAnswers) := by
  refine ⟨rfl, fun k hk => ?_⟩
  have hlt : k < 3 := hk
  interval_cases k
  all_goals exact ⟨_, _, _, _, _, rfl, rfl, rfl, rfl, rfl, conversationEntries_write _, rfl,
    conversationEntries_write _⟩

/-- The last exchange of the line is given the first one as its base instead of the one between. -/
theorem repeatedTree_misleads :
    repeatedTree.Recorded (groupExchanges repeatedAnswers) ∧
      (repeatedAnswers.map StreamEvent.observedAt).Pairwise (· < ·) ∧
      ((groupExchanges repeatedAnswers).map Exchange.responseId).Nodup ∧
      repeatedTree.parent 2 = some 1 ∧
      (sessionBases (groupExchanges repeatedAnswers))[2]? = some (.ok (0, .lastOutput)) :=
  ⟨repeatedTree_recorded, by decide, by decide, rfl, by decide +kernel⟩

theorem repeatedTree_misled : ¬ repeatedTree.Misled 1 0 ∧ repeatedTree.Misled 2 1 := by
  constructor
  · apply (Recorded.base_eq_parent_iff repeatedTree_recorded (by decide) rfl).mp
    intro b hb
    have hbase : (sessionBases (groupExchanges repeatedAnswers))[1]? = some (.ok (0, .lastOutput)) := by
      decide
    rw [hbase] at hb
    cases hb
    rfl
  · by_contra hmisled
    have hbase := (Recorded.base_eq_parent_iff repeatedTree_recorded (by decide) rfl).mpr hmisled 0 (by decide)
    cases hbase

end ResentTree

end AbyssBackend.Streams
