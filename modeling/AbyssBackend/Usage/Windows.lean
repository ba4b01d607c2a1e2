import AbyssBackend.Library.Ranges
import AbyssBackend.Library.Slices
import AbyssBackend.Usage.Preview

namespace AbyssBackend

open Conversation Ranges Slices Sorting Streams Text

/-- The entries that a run asks for. -/
def Run.Covers (total : ℕ) : Run → ℕ → Prop
  | .span start finish, i => start ≤ i ∧ i ≤ finish
  | .last count, i => total - count ≤ i

def Window.Asks (window : Window) (total i : ℕ) : Prop := ∀ runs ∈ window.runs, ∃ run ∈ runs, run.Covers total i

section Merge

variable {merged done rest : List (ℕ × ℕ)} {range : ℕ × ℕ}

/-- Ranges taken in the order of their starts, merged where they touch or overlap. -/
structure Merged (merged done : List (ℕ × ℕ)) : Prop where
  separated : Separated merged
  nonempty : ∀ r ∈ merged, r.1 < r.2
  holds : ∀ i, Holds merged i ↔ Holds done i
  starts : ∀ r ∈ merged, ∃ d ∈ done, d.1 = r.1

theorem merge_nil : merge [] range = [range] := rfl

theorem merge_concat (front : List (ℕ × ℕ)) (last : ℕ × ℕ) : merge (front ++ [last]) range =
    if range.1 ≤ last.2 then front ++ [(last.1, max last.2 range.2)] else front ++ [last] ++ [range] := by
  rw [merge, List.getLast?_concat]
  dsimp only
  rw [List.dropLast_concat]

theorem Merged.step (h : Merged merged done) (hrange : range.1 < range.2) (hafter : ∀ d ∈ done, d.1 ≤ range.1) :
    Merged (merge merged range) (done ++ [range]) := by
  have hstarts : ∀ r ∈ merged, ∃ d ∈ done ++ [range], d.1 = r.1 := by
    intro r hr
    obtain ⟨d, hd, hsame⟩ := h.starts r hr
    exact ⟨d, List.mem_append_left _ hd, hsame⟩
  rcases List.eq_nil_or_concat merged with rfl | ⟨front, last, rfl⟩
  · rw [merge_nil]
    refine ⟨List.pairwise_singleton _ _, ?_, ?_, ?_⟩
    · simpa using hrange
    · intro i
      rw [holds_append, ← h.holds i]
      simp
    · simp
  · simp only [List.concat_eq_append] at h hstarts ⊢
    have hlast := h.nonempty last (by simp)
    have hordered : last.1 ≤ range.1 := by
      obtain ⟨d, hd, hsame⟩ := h.starts last (by simp)
      exact hsame ▸ hafter d hd
    obtain ⟨hfront, hbefore⟩ := h.separated.of_concat
    rw [merge_concat]
    by_cases htouch : range.1 ≤ last.2
    · rw [if_pos htouch]
      refine ⟨hfront.concat hbefore, ?_, ?_, ?_⟩
      · intro r hr
        obtain hr | hr := List.mem_append.mp hr
        · exact h.nonempty r (List.mem_append_left _ hr)
        · rw [List.mem_singleton.mp hr]
          exact hlast.trans_le (le_max_left _ _)
      · intro i
        have hunion : (last.1 ≤ i ∧ i < max last.2 range.2) ↔
            (last.1 ≤ i ∧ i < last.2) ∨ (range.1 ≤ i ∧ i < range.2) := by omega
        have hholds := h.holds i
        simp only [holds_append, holds_cons, holds_nil, or_false] at hholds ⊢
        rw [hunion, ← or_assoc, hholds]
      · intro r hr
        obtain hr | hr := List.mem_append.mp hr
        · exact hstarts r (List.mem_append_left _ hr)
        · rw [List.mem_singleton.mp hr]
          exact hstarts last (by simp)
    · rw [if_neg htouch]
      refine ⟨h.separated.concat ?_, ?_, ?_, ?_⟩
      · intro r hr
        obtain hr | hr := List.mem_append.mp hr
        · have hapart := hbefore r hr
          omega
        · rw [List.mem_singleton.mp hr]
          omega
      · intro r hr
        obtain hr | hr := List.mem_append.mp hr
        · exact h.nonempty r hr
        · rwa [List.mem_singleton.mp hr]
      · intro i
        rw [holds_append, h.holds i, holds_append]
      · intro r hr
        obtain hr | hr := List.mem_append.mp hr
        · exact hstarts r hr
        · exact ⟨range, by simp, by rw [List.mem_singleton.mp hr]⟩

theorem Merged.foldl (h : Merged merged done) (hsorted : (done ++ rest).Pairwise fun r s => r.1 ≤ s.1)
    (hnonempty : ∀ r ∈ rest, r.1 < r.2) : Merged (rest.foldl merge merged) (done ++ rest) := by
  induction rest generalizing merged done with
  | nil =>
    rw [List.append_nil]
    exact h
  | cons range rest ih =>
    have hafter : ∀ d ∈ done, d.1 ≤ range.1 :=
      fun d hd => (List.pairwise_append.mp hsorted).2.2 d hd range List.mem_cons_self
    rw [List.foldl_cons, List.append_cons]
    apply ih (h.step (hnonempty range List.mem_cons_self) hafter)
    · rwa [← List.append_cons]
    · exact fun r hr => hnonempty r (List.mem_cons_of_mem _ hr)

end Merge

theorem Run.range_holds {total : ℕ} (htotal : total ≤ SessionStructure.usizeMax) (run : Run) (i : ℕ) :
    ((run.range total).1 ≤ i ∧ i < (run.range total).2) ↔ i < total ∧ run.Covers total i := by
  cases run with
  | span start finish =>
    simp only [Run.range, Run.Covers]
    omega
  | last count =>
    simp only [Run.range, Run.Covers]
    omega

/-- Ranges that hold the entries a window asks for, and no two of which touch. -/
structure Window.Selects (window : Window) (total : ℕ) (ranges : List (ℕ × ℕ)) : Prop where
  separated : Separated ranges
  whole : window.runs = none → ranges = [(0, total)]
  nonempty : window.runs ≠ none → ∀ range ∈ ranges, range.1 < range.2
  inside : ∀ range ∈ ranges, range.1 ≤ range.2 ∧ range.2 ≤ total
  holds : ∀ i, Holds ranges i ↔ i < total ∧ window.Asks total i

theorem Window.ranges_selects (window : Window) {total : ℕ} (htotal : total ≤ SessionStructure.usizeMax) :
    window.Selects total (window.ranges total) := by
  cases hruns : window.runs with
  | none =>
    have hranges : window.ranges total = [(0, total)] := by
      rw [Window.ranges, hruns]
    rw [hranges]
    refine ⟨List.pairwise_singleton _ _, fun _ => rfl, fun hsome => absurd hruns hsome, ?_, ?_⟩
    · simp
    · intro i
      simp [Window.Asks, hruns]
  | some runs =>
    let asked := (runs.map (Run.range total)).filter fun range => range.1 < range.2
    have hranges : window.ranges total = (sortBy Prod.fst asked).foldl merge [] := by
      rw [Window.ranges, hruns]
    have hasked : ∀ range ∈ asked, range.1 < range.2 := fun range hrange => by
      simpa using (List.mem_filter.mp hrange).2
    have hnil : Merged [] [] := ⟨List.Pairwise.nil, by simp, by simp, by simp⟩
    have hmerged : Merged (window.ranges total) ([] ++ sortBy Prod.fst asked) := by
      rw [hranges]
      apply hnil.foldl
      · exact sortBy_pairwise Prod.fst asked
      · exact fun range hrange => hasked range (mem_sortBy.mp hrange)
    rw [List.nil_append] at hmerged
    have hholds : ∀ i, Holds (window.ranges total) i ↔ i < total ∧ window.Asks total i := by
      intro i
      rw [hmerged.holds i]
      constructor
      · rintro ⟨range, hrange, hi⟩
        obtain ⟨hrun, -⟩ := List.mem_filter.mp (mem_sortBy.mp hrange)
        obtain ⟨run, hmem, rfl⟩ := List.mem_map.mp hrun
        obtain ⟨hlt, hcovers⟩ := (run.range_holds htotal i).mp hi
        refine ⟨hlt, fun others hothers => ?_⟩
        rw [hruns] at hothers
        cases hothers
        exact ⟨run, hmem, hcovers⟩
      · rintro ⟨hlt, hasks⟩
        obtain ⟨run, hmem, hcovers⟩ := hasks runs hruns
        have hi := (run.range_holds htotal i).mpr ⟨hlt, hcovers⟩
        refine ⟨run.range total, mem_sortBy.mpr (List.mem_filter.mpr ⟨List.mem_map_of_mem hmem, ?_⟩), hi⟩
        exact decide_eq_true (by omega)
    refine ⟨hmerged.separated, fun hnone => ?_, fun _ => hmerged.nonempty, fun range hrange => ?_, hholds⟩
    · rw [hruns] at hnone
      cases hnone
    · have hlt := hmerged.nonempty range hrange
      have hlast := (hholds (range.2 - 1)).mp ⟨range, hrange, by omega, by omega⟩
      omega

def UsageEventResponse.entries (event : UsageEventResponse) : List Value :=
  ((event.conversation.bind (Value.get "entries")).bind Value.asArray).getD []

def textBytes (entry : Value) : ℕ := (utf8 (textOf entry)).length

namespace ConversationPreview

/-- The entry of an index is at a place of a chunk. -/
def Places (shown : ConversationPreview) (i : ℕ) (place : ℕ × ℕ) : Prop :=
  ∃ chunk, shown.chunks[place.1]? = some chunk ∧ place.2 < chunk.entries.length ∧ chunk.start + place.2 = i

/-- Every entry is at one place or left out, and what is left out is counted. -/
structure Complete (shown : ConversationPreview) (window : Window) (entries : List Value) : Prop where
  total : shown.entriesTotal = entries.length
  chunks : shown.chunks.map (fun chunk => (chunk.start, chunk.start + chunk.entries.length)) =
    window.ranges entries.length
  copied : ∀ chunk ∈ shown.chunks, ∀ offset < chunk.entries.length,
    chunk.entries[offset]? = (entries[chunk.start + offset]?).map fun entry => cut entry window.textPreview
  places : ∀ i < entries.length, (∃! place, shown.Places i place) ∨ ∀ place, ¬ shown.Places i place
  counted : (shown.chunks.map fun chunk => chunk.entries.length).sum + shown.omittedEntries = shown.entriesTotal
  omitted : ∃ left : List ℕ, left.Nodup ∧
    (∀ i, i ∈ left ↔ i < entries.length ∧ ∀ place, ¬ shown.Places i place) ∧
    shown.omittedEntries = left.length ∧
    shown.omittedBytes = (left.map fun i => ((entries[i]?).map textBytes).getD 0).sum

end ConversationPreview

section Preview

variable {entries : List Value} {ranges : List (ℕ × ℕ)}

def heldBy (ranges : List (ℕ × ℕ)) (i : ℕ) : Bool := ranges.any fun range => range.1 ≤ i && i < range.2

theorem heldBy_iff {i : ℕ} : heldBy ranges i = true ↔ Holds ranges i := by
  simp [heldBy, Holds]

/-- The entries that no range holds, each with its index. -/
def leftOut (entries : List Value) (ranges : List (ℕ × ℕ)) : List (Value × ℕ) :=
  entries.zipIdx.filter fun (_, index) => !heldBy ranges index

theorem leftOut_indexes : (leftOut entries ranges).map Prod.snd =
    (List.range entries.length).filter fun i => !heldBy ranges i := by
  have hindexes : List.range entries.length = entries.zipIdx.map Prod.snd := by
    rw [List.zipIdx_map_snd, List.range_eq_range']
  rw [hindexes, List.filter_map]
  rfl

theorem leftOut_length (h : Separated ranges) (hinside : ∀ range ∈ ranges, range.2 ≤ entries.length) :
    (ranges.map size).sum + (leftOut entries ranges).length = entries.length := by
  have hlength : (leftOut entries ranges).length =
      (List.range entries.length).countP fun i => !heldBy ranges i := by
    rw [← List.length_map Prod.snd, leftOut_indexes, List.countP_eq_length_filter]
  have hsplit : (List.range entries.length).length = _ := List.length_eq_countP_add_countP (heldBy ranges)
  rw [List.length_range] at hsplit
  have hheld : (List.range entries.length).countP (heldBy ranges) = (ranges.map size).sum := countP_holds h hinside
  rw [hlength, ← hheld]
  simpa using hsplit.symm

theorem leftOut_bytes : ((leftOut entries ranges).map fun (entry, _) => textBytes entry).sum =
    (((leftOut entries ranges).map Prod.snd).map fun i => ((entries[i]?).map textBytes).getD 0).sum := by
  rw [List.map_map]
  congr 1
  apply List.map_congr_left
  rintro ⟨entry, i⟩ hmem
  have hentry : entries[i]? = some entry := by
    have hzip := (List.mem_filter.mp hmem).1
    simpa [List.mem_zipIdx_iff_getElem?] using hzip
  simp [hentry]

def chunkOf (window : Window) (entries : List Value) (range : ℕ × ℕ) : Chunk :=
  ⟨range.1, (slice entries range.1 range.2).map fun entry => cut entry window.textPreview⟩

variable (window : Window) {range : ℕ × ℕ}

theorem chunkOf_length (h : range.2 ≤ entries.length) : (chunkOf window entries range).entries.length = size range := by
  rw [chunkOf, List.length_map, length_slice h, size]

theorem chunkOf_getElem? {offset : ℕ} (h : offset < size range) : (chunkOf window entries range).entries[offset]? =
    (entries[range.1 + offset]?).map fun entry => cut entry window.textPreview := by
  unfold size at h
  rw [chunkOf, List.getElem?_map, slice, List.getElem?_take_of_lt h, List.getElem?_drop]

end Preview

section Places

variable {window : Window} {event : UsageEventResponse} {i : ℕ} {place : ℕ × ℕ}

theorem preview_places (hinside : ∀ range ∈ window.ranges event.entries.length, range.2 ≤ event.entries.length) :
    (preview event window).Places i place ↔ ∃ range,
      (window.ranges event.entries.length)[place.1]? = some range ∧ place.2 < size range ∧ range.1 + place.2 = i := by
  have hchunks : (preview event window).chunks =
      (window.ranges event.entries.length).map (chunkOf window event.entries) := rfl
  unfold ConversationPreview.Places
  rw [hchunks, List.getElem?_map]
  constructor
  · rintro ⟨chunk, hchunk, hplace, hindex⟩
    obtain ⟨range, hrange, rfl⟩ := Option.map_eq_some_iff.mp hchunk
    rw [chunkOf_length window (hinside range (List.mem_of_getElem? hrange))] at hplace
    exact ⟨range, hrange, hplace, hindex⟩
  · rintro ⟨range, hrange, hplace, hindex⟩
    rw [← chunkOf_length window (hinside range (List.mem_of_getElem? hrange))] at hplace
    exact ⟨_, Option.map_eq_some_iff.mpr ⟨range, hrange, rfl⟩, hplace, hindex⟩

theorem holds_iff_placed (hinside : ∀ range ∈ window.ranges event.entries.length, range.2 ≤ event.entries.length) :
    Holds (window.ranges event.entries.length) i ↔ ∃ place, (preview event window).Places i place := by
  constructor
  · rintro ⟨range, hrange, hi⟩
    obtain ⟨k, hk⟩ := List.getElem?_of_mem hrange
    refine ⟨(k, i - range.1), (preview_places hinside).mpr ⟨range, hk, ?_, ?_⟩⟩
    · unfold size
      omega
    · omega
  · rintro ⟨place, hplace⟩
    obtain ⟨range, hrange, hoffset, rfl⟩ := (preview_places hinside).mp hplace
    refine ⟨range, List.mem_of_getElem? hrange, ?_⟩
    unfold size at hoffset
    omega

theorem placed_once (hseparated : Separated (window.ranges event.entries.length))
    (hinside : ∀ range ∈ window.ranges event.entries.length, range.2 ≤ event.entries.length) {other : ℕ × ℕ}
    (h : (preview event window).Places i place) (hother : (preview event window).Places i other) : other = place := by
  obtain ⟨range, hrange, hoffset, hindex⟩ := (preview_places hinside).mp h
  obtain ⟨range', hrange', hoffset', hindex'⟩ := (preview_places hinside).mp hother
  unfold size at hoffset hoffset'
  have hsame : other.1 = place.1 := hseparated.eq hrange' hrange (by omega : range'.1 ≤ i ∧ i < range'.2) (by omega)
  rw [hsame, hrange] at hrange'
  cases hrange'
  apply Prod.ext hsame
  omega

end Places

/-- No entry is lost or shown twice. -/
theorem Window.preview_complete (window : Window) (event : UsageEventResponse)
    (h : event.entries.length ≤ SessionStructure.usizeMax) :
    window.Selects event.entries.length (window.ranges event.entries.length) ∧
      (preview event window).Complete window event.entries := by
  let ranges := window.ranges event.entries.length
  have hselects : window.Selects event.entries.length ranges := window.ranges_selects h
  have hinside : ∀ range ∈ ranges, range.2 ≤ event.entries.length := fun range hrange => (hselects.inside range hrange).2
  have hchunks : (preview event window).chunks = ranges.map (chunkOf window event.entries) := rfl
  have hlengths : ∀ range ∈ ranges, (chunkOf window event.entries range).entries.length = size range :=
    fun range hrange => chunkOf_length window (hinside range hrange)
  have hheld : ∀ i, Holds ranges i ↔ ∃ place, (preview event window).Places i place := fun i => holds_iff_placed hinside
  have hcounted := leftOut_length hselects.separated hinside
  have homitted : (preview event window).omittedEntries = (leftOut event.entries ranges).length := by
    have hshown : (preview event window).omittedEntries = event.entries.length - (ranges.map size).sum := rfl
    omega
  refine ⟨hselects, rfl, ?_, ?_, ?_, ?_, ?_⟩
  · have hsame : window.ranges event.entries.length = ranges.map id := (List.map_id ranges).symm
    rw [hchunks, List.map_map, hsame]
    apply List.map_congr_left
    intro range hrange
    have hordered := (hselects.inside range hrange).1
    rw [Function.comp_apply, hlengths range hrange, size]
    apply Prod.ext
    · rfl
    · exact Nat.add_sub_cancel' hordered
  · intro chunk hchunk offset hoffset
    rw [hchunks] at hchunk
    obtain ⟨range, hrange, rfl⟩ := List.mem_map.mp hchunk
    rw [hlengths range hrange] at hoffset
    exact chunkOf_getElem? window hoffset
  · intro i _
    by_cases hi : Holds ranges i
    · left
      obtain ⟨place, hplace⟩ := (hheld i).mp hi
      exact ⟨place, hplace, fun other hother => placed_once hselects.separated hinside hplace hother⟩
    · right
      exact fun place hplace => hi ((hheld i).mpr ⟨place, hplace⟩)
  · have hsizes : ((preview event window).chunks.map fun chunk => chunk.entries.length) = ranges.map size := by
      rw [hchunks, List.map_map]
      exact List.map_congr_left hlengths
    have htotal : (preview event window).entriesTotal = event.entries.length := rfl
    rw [hsizes, homitted, htotal]
    exact hcounted
  · refine ⟨(leftOut event.entries ranges).map Prod.snd, ?_, fun i => ?_, ?_, ?_⟩
    · rw [leftOut_indexes]
      exact List.nodup_range.filter _
    · rw [leftOut_indexes, List.mem_filter, List.mem_range, Bool.not_eq_true', ← Bool.not_eq_true, heldBy_iff, hheld i,
        not_exists]
    · rw [homitted, List.length_map]
    · rw [← leftOut_bytes]
      rfl

def fourEntries : UsageEventResponse where
  id := 1
  eventId := "e1"
  sessionPk := 2
  sessionId := "s"
  location := none
  observedAt := 0
  eventType := "request"
  agent := ⟨"codex", none⟩
  device := {}
  llm := ⟨"openai", "gpt-5"⟩
  purpose := none
  declared := {}
  responseId := none
  previousResponseId := none
  http := ⟨none, []⟩
  tokenUsage := ⟨0, 0, 0, 0, 0, 0⟩
  omitted := []
  conversation := some (write [⟨"user", "a", none, none⟩, ⟨"assistant", "bé", none, none⟩, ⟨"user", "c", none, none⟩,
    ⟨"assistant", "d", none, none⟩])
  attachments := []

/-- The first entry and the last two of four, asked for with a run that clipping reverses and one that overlaps. -/
def firstAndLast : Window where
  runs := some [.last 2, .span 0 0, .span 9 7, .span 3 18446744073709551615]
  textPreview := none

theorem Window.preview_complete_firstAndLast : firstAndLast.ranges 4 = [(0, 1), (2, 4)] ∧
    (preview fourEntries firstAndLast).omittedEntries = 1 ∧
    firstAndLast.Selects fourEntries.entries.length (firstAndLast.ranges fourEntries.entries.length) ∧
      (preview fourEntries firstAndLast).Complete firstAndLast fourEntries.entries :=
  ⟨by decide, by decide, Window.preview_complete firstAndLast fourEntries (by decide)⟩

end AbyssBackend
