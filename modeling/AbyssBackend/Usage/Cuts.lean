import AbyssBackend.Library.Prefixes
import AbyssBackend.Usage.Preview

namespace AbyssBackend

open Conversation Positions Prefixes Streams Text

theorem cutText_eq (limit units : ℕ) (text : List Char) : cutText limit units text =
    takeWithin lenUtf16 limit units text := by
  induction text generalizing units with
  | nil => rfl
  | cons c text ih => rw [cutText, takeWithin, ih]

theorem cutLabel_eq (units : ℕ) (text : List Char) : cutLabel units text =
    takeWithin lenUtf16 labelTextUnits units text := by
  induction text generalizing units with
  | nil => rfl
  | cons c text ih => rw [cutLabel, takeWithin, ih]

section Members

variable (key other : String) (value : Value) (members : List (String × Value))

theorem lookup_replace : (members.map fun entry => if entry.1 = key then (key, value) else entry).lookup other =
    if other = key then (members.lookup key).map fun _ => value else members.lookup other := by
  induction members with
  | nil => simp
  | cons entry members ih =>
    rw [List.map_cons]
    by_cases hentry : entry.1 = key
    · rw [if_pos hentry, List.lookup_cons, List.lookup_cons, List.lookup_cons, ih, hentry]
      by_cases hother : other = key
      · simp [hother]
      · have hne : (other == key) = false := beq_eq_false_iff_ne.mpr hother
        simp [hother, hne]
    · have hne : (key == entry.1) = false := beq_eq_false_iff_ne.mpr (Ne.symm hentry)
      rw [if_neg hentry, List.lookup_cons, List.lookup_cons, List.lookup_cons, ih]
      by_cases hother : other = key
      · simp [hother, hne]
      · simp [hother]

theorem lookup_insertMember :
    (insertMember key value members).lookup other = if other = key then some value else members.lookup other := by
  unfold insertMember
  split
  · next hany =>
    obtain ⟨entry, hentry, hkey⟩ := List.any_eq_true.mp hany
    obtain ⟨old, hold⟩ : ∃ old, members.lookup key = some old := by
      apply Option.ne_none_iff_exists'.mp
      intro hnone
      exact absurd (beq_iff_eq.mp hkey).symm (by simpa using List.lookup_eq_none_iff.mp hnone entry hentry)
    rw [lookup_replace, hold]
    rfl
  · next hany =>
    have hnone : members.lookup key = none := by
      apply List.lookup_eq_none_iff.mpr
      intro entry hentry
      apply bne_iff_ne.mpr
      intro hkey
      exact hany (List.any_eq_true.mpr ⟨entry, hentry, by simpa using hkey.symm⟩)
    rw [List.lookup_append]
    by_cases hother : other = key
    · rw [if_pos hother, hother, hnone]
      simp
    · have hne : (other == key) = false := beq_eq_false_iff_ne.mpr hother
      simp [hother, List.lookup_cons, hne]

end Members

/-- What a cut leaves of an entry. -/
structure CutTo (limit : ℕ) (entry shortened : Value) : Prop where
  text : Longest lenUtf16 limit (textOf entry).toList (textOf shortened).toList
  length : textOf shortened ≠ textOf entry →
    shortened.get "text_length" = some (.number (toString (utf16Length (textOf entry))))
  whole : textOf shortened = textOf entry → shortened = entry
  others : ∀ key, key ≠ "text" → key ≠ "text_length" → shortened.get key = entry.get key

section Cut

variable {entry : Value} {limit : ℕ} {members : List (String × Value)}

theorem cut_of_le (h : utf16Length (textOf entry) ≤ limit) : cut entry (some limit) = entry := if_pos h

theorem cut_of_lt (h : limit < utf16Length (textOf (.object members))) : cut (.object members) (some limit) =
    .object (insertMember "text_length" (.number (toString (utf16Length (textOf (.object members)))))
      (insertMember "text" (.string (String.ofList (takeWithin lenUtf16 limit 0 (textOf (.object members)).toList)))
        members)) := by
  rw [← cutText_eq]
  exact if_neg (Nat.not_le.mpr h)

theorem textOf_ne_empty (h : textOf entry ≠ "") : ∃ members, entry = .object members := by
  cases entry with
  | object members => exact ⟨members, rfl⟩
  | _ => exact absurd rfl h

theorem cut_cutTo (entry : Value) (limit : ℕ) : CutTo limit entry (cut entry (some limit)) := by
  by_cases hlength : utf16Length (textOf entry) ≤ limit
  · rw [cut_of_le hlength]
    exact ⟨longest_self hlength, fun hne => absurd rfl hne, fun _ => rfl, fun _ _ _ => rfl⟩
  · obtain ⟨members, rfl⟩ : ∃ members, entry = .object members := by
      apply textOf_ne_empty
      intro hempty
      rw [hempty] at hlength
      exact hlength (Nat.zero_le limit)
    have hcut := cut_of_lt (Nat.not_le.mp hlength)
    have hget : ∀ key, (cut (.object members) (some limit)).get key = if key = "text_length" then
        some (.number (toString (utf16Length (textOf (.object members))))) else if key = "text" then
        some (.string (String.ofList (takeWithin lenUtf16 limit 0 (textOf (.object members)).toList))) else
        (Value.object members).get key := by
      intro key
      rw [hcut, Value.get, lookup_insertMember, lookup_insertMember]
      rfl
    have htext : textOf (cut (.object members) (some limit)) =
        String.ofList (takeWithin lenUtf16 limit 0 (textOf (.object members)).toList) := by
      rw [textOf, hget "text", if_neg (by decide), if_pos rfl]
      rfl
    have hlongest : Longest lenUtf16 limit (textOf (.object members)).toList
        (textOf (cut (.object members) (some limit))).toList := by
      rw [htext, String.toList_ofList]
      exact takeWithin_longest
    refine ⟨hlongest, fun _ => ?_, fun hsame => ?_, fun key hkey hkey' => ?_⟩
    · rw [hget, if_pos rfl]
    · have hfits := hlongest.fits
      rw [hsame] at hfits
      exact absurd hfits hlength
    · rw [hget, if_neg hkey', if_neg hkey]

theorem cut_cut (entry : Value) {again : ℕ} (h : limit ≤ again) :
    cut (cut entry (some limit)) (some again) = cut entry (some limit) := by
  apply cut_of_le
  exact (cut_cutTo entry limit).text.fits.trans h

end Cut

/-- The index after the last model-side entry, or 0 without one. -/
def newPartStart (entries : List Entry) : ℕ := ((rposition isModelSide entries).map (· + 1)).getD 0

/-- The last user entry with text from an index on. -/
structure LastUserText (entries : List Entry) (newFrom index : ℕ) (entry : Entry) : Prop where
  after : newFrom ≤ index
  place : entries[index]? = some entry
  user : entry.role = "user"
  text : entry.text ≠ ""
  last : ∀ later other, index < later → entries[later]? = some other → other.role = "user" → other.text = ""

/-- A label of an entry, cut as a preview cuts the entry's object. -/
structure Streams.Label.IsFor (label : Label) (index : ℕ) (entry : Entry) : Prop where
  index : label.index = toI32 index
  text : Longest lenUtf16 labelTextUnits entry.text.toList label.text.toList
  cut : ∀ members, deserializeEntry (.object members) = some entry →
    textOf (cut (.object members) (some labelTextUnits)) = label.text
  length : label.length = toI32 (utf16Length entry.text)

section Label

variable {entries : List Entry} {entry : Entry} {newFrom index : ℕ} {label : Label}

def hasWords (entry : Entry) : Bool := entry.role == "user" && entry.text != ""

theorem hasWords_iff : hasWords entry = true ↔ entry.role = "user" ∧ entry.text ≠ "" := by
  simp [hasWords]

theorem hasWords_eq_false : hasWords entry = false ↔ (entry.role = "user" → entry.text = "") := by
  rw [← Bool.not_eq_true, hasWords_iff]
  tauto

theorem lastUserText_iff : LastUserText entries newFrom index entry ↔
    ∃ offset, rposition hasWords (entries.drop newFrom) = some offset ∧ newFrom + offset = index ∧
      entries[index]? = some entry := by
  constructor
  · intro h
    have hindex : newFrom + (index - newFrom) = index := Nat.add_sub_cancel' h.after
    refine ⟨index - newFrom, rposition_eq_some.mpr ⟨entry, ?_, ?_, fun j other hj hother => ?_⟩, hindex, h.place⟩
    · rw [List.getElem?_drop, hindex]
      exact h.place
    · exact hasWords_iff.mpr ⟨h.user, h.text⟩
    · rw [List.getElem?_drop] at hother
      exact hasWords_eq_false.mpr (h.last (newFrom + j) other (by omega) hother)
  · rintro ⟨offset, hoffset, rfl, hplace⟩
    obtain ⟨found, hfound, hwords, hlast⟩ := rposition_eq_some.mp hoffset
    rw [List.getElem?_drop, hplace] at hfound
    cases hfound
    obtain ⟨huser, htext⟩ := hasWords_iff.mp hwords
    refine ⟨Nat.le_add_right _ _, hplace, huser, htext, fun later other hlater hother => ?_⟩
    apply hasWords_eq_false.mp
    apply hlast (later - newFrom) other (by omega)
    rw [List.getElem?_drop, Nat.add_sub_cancel' (by omega)]
    exact hother

theorem textOf_deserialized {members : List (String × Value)} (h : deserializeEntry (.object members) = some entry) :
    textOf (.object members) = entry.text := by
  simp only [deserializeEntry, Option.bind_eq_bind, Option.bind_eq_some_iff] at h
  obtain ⟨_, _, _, _, value, hvalue, text, htext, _, _, _, _, hentry⟩ := h
  cases hentry
  rw [textOf, Value.get, hvalue, Option.bind_some, htext]
  rfl

theorem Streams.Label.isFor_iff : label.IsFor index entry ↔
    label = ⟨toI32 index, String.ofList (cutLabel 0 entry.text.toList), toI32 (utf16Length entry.text)⟩ := by
  have hcut : Longest lenUtf16 labelTextUnits entry.text.toList (cutLabel 0 entry.text.toList) := by
    rw [cutLabel_eq]
    exact takeWithin_longest
  constructor
  · intro h
    have htext : label.text = String.ofList (cutLabel 0 entry.text.toList) := by
      rw [← h.text.unique hcut, String.ofList_toList]
    rw [← h.index, ← h.length, ← htext]
  · rintro rfl
    refine ⟨rfl, ?_, fun members hread => ?_, rfl⟩
    · rw [String.toList_ofList]
      exact hcut
    · have hlongest := (cut_cutTo (.object members) labelTextUnits).text
      rw [textOf_deserialized hread] at hlongest
      rw [← hlongest.unique hcut, String.ofList_toList]

theorem Streams.Label.of_eq_some : Label.of entries newFrom = some label ↔
    ∃ index entry, LastUserText entries newFrom index entry ∧ label.IsFor index entry := by
  have hof : Label.of entries newFrom = (rposition hasWords (entries.drop newFrom)).bind fun offset =>
      (entries[newFrom + offset]?).bind fun entry => some ⟨toI32 (newFrom + offset : ℕ),
        String.ofList (cutLabel 0 entry.text.toList), toI32 (utf16Length entry.text)⟩ := rfl
  rw [hof]
  simp only [Option.bind_eq_some_iff, Option.some.injEq, lastUserText_iff, isFor_iff]
  constructor
  · rintro ⟨offset, hoffset, entry, hentry, hlabel⟩
    exact ⟨newFrom + offset, entry, ⟨offset, hoffset, rfl, hentry⟩, hlabel.symm⟩
  · rintro ⟨index, entry, ⟨offset, hoffset, rfl, hentry⟩, hlabel⟩
    exact ⟨offset, hoffset, entry, hentry, hlabel.symm⟩

variable [Sha256]

theorem RequestFacts.ofEntries_newFrom (entries : List Entry) :
    (RequestFacts.ofEntries entries).newFrom = toI32 (newPartStart entries) := by
  unfold RequestFacts.ofEntries newPartStart
  split
  · next h =>
    rw [h]
    rfl
  · next h =>
    rw [h]
    rfl

theorem RequestFacts.ofEntries_label (entries : List Entry) :
    (RequestFacts.ofEntries entries).label = Label.of entries (newPartStart entries) := by
  unfold RequestFacts.ofEntries newPartStart
  split
  · next h =>
    rw [h]
    rfl
  · next h =>
    rw [h]
    rfl

theorem RequestFacts.read_label (conversation : Option Value) : (RequestFacts.read conversation).label =
    Label.of (conversationEntries conversation) (newPartStart (conversationEntries conversation)) :=
  ofEntries_label _

end Label

/-- A preview and a label cut a text to the same longest prefix. -/
theorem cut_agrees_with_label [Sha256] : (∀ entry limit, CutTo limit entry (cut entry (some limit)) ∧
      ∀ again, limit ≤ again → cut (cut entry (some limit)) (some again) = cut entry (some limit)) ∧
    (∀ entry, cut entry none = entry) ∧
    ∀ conversation : Option Value, (RequestFacts.read conversation).newFrom =
        toI32 (newPartStart (conversationEntries conversation)) ∧
      ∀ label, (RequestFacts.read conversation).label = some label ↔ ∃ index entry,
        LastUserText (conversationEntries conversation) (newPartStart (conversationEntries conversation)) index entry ∧
          label.IsFor index entry :=
  ⟨fun entry limit => ⟨cut_cutTo entry limit, fun _ => cut_cut entry⟩, fun _ => rfl, fun conversation =>
    ⟨RequestFacts.ofEntries_newFrom _, fun label => by
      rw [RequestFacts.read_label]
      exact Label.of_eq_some⟩⟩

/-- A user entry whose text has a number of units. -/
def wordsOf (units : ℕ) : Entry := ⟨"user", String.ofList (List.replicate units 'a'), none, none⟩

theorem wordsOf_length (units : ℕ) : utf16Length (wordsOf units).text = units := by
  rw [utf16Length, wordsOf, String.toList_ofList, List.map_replicate, List.sum_replicate]
  exact Nat.mul_one units

theorem wordsOf_last {units : ℕ} (h : 0 < units) : LastUserText [wordsOf units] 0 0 (wordsOf units) := by
  refine ⟨Nat.le_refl 0, rfl, rfl, fun hempty => ?_, fun later other hlater hother => ?_⟩
  · have hlength := wordsOf_length units
    rw [hempty] at hlength
    exact absurd hlength (Nat.ne_of_lt h)
  · rw [List.getElem?_eq_none (Nat.succ_le_of_lt hlater)] at hother
    cases hother

/-- A text that is longer than an `i32` counts has a label of less than its length. -/
theorem label_length_saturates : ∃ label,
    (@RequestFacts.read ⟨fun _ => []⟩ (some (write [wordsOf 2147483648]))).label = some label ∧
      LastUserText (conversationEntries (some (write [wordsOf 2147483648]))) 0 0 (wordsOf 2147483648) ∧
      label.length = 2147483647 ∧ utf16Length (wordsOf 2147483648).text = 2147483648 := by
  have hlast : LastUserText [wordsOf 2147483648] 0 0 (wordsOf 2147483648) := wordsOf_last (by omega)
  have hlength := wordsOf_length 2147483648
  have hstart : newPartStart [wordsOf 2147483648] = 0 := rfl
  rw [@RequestFacts.read_label ⟨fun _ => []⟩, conversationEntries_write, hstart]
  refine ⟨_, Label.of_eq_some.mpr ⟨0, _, hlast, Label.isFor_iff.mpr rfl⟩, hlast, ?_, hlength⟩
  rw [hlength]
  rfl

end AbyssBackend
