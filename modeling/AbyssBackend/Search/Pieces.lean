import Mathlib.Data.Prod.Lex
import AbyssBackend.Conversation

namespace AbyssBackend.Search

open Conversation

inductive PieceField
  | name
  | text
deriving DecidableEq, Repr

def PieceField.asStr : PieceField → String
  | .name => "name"
  | .text => "text"

def PieceField.parse : String → Option PieceField
  | "name" => some .name
  | "text" => some .text
  | _ => none

structure Piece where
  entryIndex : ℕ
  field : PieceField
  text : String
deriving DecidableEq, Repr

def entryValues (conversation : Option Value) : List Value :=
  ((conversation.bind fun conversation => conversation.get "entries").bind Value.asArray).getD []

def pieceOf (entry : Value) (entryIndex : ℕ) (field : PieceField) : Option Piece := do
  let text ← (← entry.get field.asStr).asStr
  if text.isEmpty then none else some ⟨entryIndex, field, text⟩

def pieces (conversation : Option Value) : List Piece :=
  (entryValues conversation).zipIdx.flatMap fun (entry, entryIndex) =>
    [PieceField.name, PieceField.text].filterMap (pieceOf entry entryIndex)

def Piece.place (piece : Piece) : ℕ ×ₗ ℕ := toLex (piece.entryIndex, if piece.field = .name then 0 else 1)

theorem pieceOf_eq_some {entry : Value} {entryIndex : ℕ} {field : PieceField} {piece : Piece}
    (h : pieceOf entry entryIndex field = some piece) : piece.entryIndex = entryIndex ∧ piece.field = field := by
  simp only [pieceOf, bind, Option.bind_eq_some_iff] at h
  obtain ⟨value, -, text, -, h⟩ := h
  split at h
  · cases h
  · cases h
    exact ⟨rfl, rfl⟩

theorem pieces_sorted (conversation : Option Value) :
    (pieces conversation).Pairwise fun x y => x.place < y.place := by
  refine List.pairwise_flatMap.mpr ⟨fun entry _ => ?_, ?_⟩
  · rw [List.pairwise_filterMap]
    have hfields : [PieceField.name, PieceField.text].Pairwise fun x y => x = .name ∧ y = .text := by simp
    refine hfields.imp fun {field field'} hboth x hx y hy => ?_
    obtain ⟨rfl, rfl⟩ := hboth
    obtain ⟨hxIndex, hxField⟩ := pieceOf_eq_some hx
    obtain ⟨hyIndex, hyField⟩ := pieceOf_eq_some hy
    simp [Piece.place, Prod.Lex.toLex_lt_toLex, hxIndex, hxField, hyIndex, hyField]
  · have hindices : ((entryValues conversation).zipIdx.map Prod.snd).Pairwise (· < ·) := by
      rw [List.zipIdx_map_snd]
      exact List.pairwise_lt_range'
    refine (List.pairwise_map.mp hindices).imp fun {entry entry'} hlt x hx y hy => ?_
    obtain ⟨field, -, hx⟩ := List.mem_filterMap.mp hx
    obtain ⟨field', -, hy⟩ := List.mem_filterMap.mp hy
    rw [Piece.place, Piece.place, Prod.Lex.toLex_lt_toLex, (pieceOf_eq_some hx).1, (pieceOf_eq_some hy).1]
    exact Or.inl hlt

theorem parse_asStr (field : PieceField) : PieceField.parse field.asStr = some field := by
  cases field <;> rfl

theorem asStr_inj {field field' : PieceField} : field.asStr = field'.asStr ↔ field = field' := by
  cases field <;> cases field' <;> simp [PieceField.asStr]

end AbyssBackend.Search
