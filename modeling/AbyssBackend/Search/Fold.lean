import AbyssBackend.Text

namespace AbyssBackend.Search

/-- A character's Unicode lowercase form, one character or more. -/
class CaseMapping where
  toLowercase : Char → List Char
  ascii : ∀ c, c.toNat < 128 → toLowercase c = [c.toLower]

def isAscii (c : Char) : Bool := c.toNat < 128

variable [CaseMapping]

/-- One character's lowercase form when that is exactly one character, else the character itself. -/
def foldChar (c : Char) : Char :=
  if isAscii c then c.toLower
  else match CaseMapping.toLowercase c with
    | [folded] => folded
    | _ => c

def fold (text : String) : String :=
  if text.toList.all isAscii then String.ofList (text.toList.map Char.toLower)
  else String.ofList (text.toList.map foldChar)

theorem fold_toList (text : String) : (fold text).toList = text.toList.map foldChar := by
  unfold fold
  split
  · next hascii =>
    rw [String.toList_ofList]
    apply List.map_congr_left
    intro c hc
    rw [foldChar, if_pos (List.all_eq_true.mp hascii c hc)]
  · rw [String.toList_ofList]

theorem foldChar_eq (c : Char) :
    foldChar c = match CaseMapping.toLowercase c with
      | [folded] => folded
      | _ => c := by
  by_cases hascii : isAscii c = true
  · rw [foldChar, if_pos hascii, CaseMapping.ascii c (of_decide_eq_true hascii)]
  · rw [foldChar, if_neg hascii]

end AbyssBackend.Search
