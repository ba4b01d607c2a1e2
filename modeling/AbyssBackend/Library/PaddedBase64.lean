import Mathlib.Data.List.Basic
import Mathlib.Data.Nat.Notation

/-! Base64 with the standard alphabet and canonical padding, as RFC 4648 has it. -/

namespace PaddedBase64

def alphabet : List Char := "ABCDEFGHIJKLMNOPQRSTUVWXYZabcdefghijklmnopqrstuvwxyz0123456789+/".toList

def digit (n : ℕ) : Char := alphabet.getD n '='

def value (c : Char) : Option ℕ := alphabet.idxOf? c

def encode : List UInt8 → List Char
  | [] => []
  | [a] => [digit (a.toNat / 4), digit (a.toNat % 4 * 16), '=', '=']
  | [a, b] => [digit (a.toNat / 4), digit (a.toNat % 4 * 16 + b.toNat / 16), digit (b.toNat % 16 * 4), '=']
  | a :: b :: c :: rest =>
    digit (a.toNat / 4) :: digit (a.toNat % 4 * 16 + b.toNat / 16) :: digit (b.toNat % 16 * 4 + c.toNat / 64) ::
      digit (c.toNat % 64) :: encode rest

/-- A last group of one or two bytes; the bits of its digits that no byte takes are zero. -/
def decodeLast (p q r : Char) : Option (List UInt8) := do
  let p ← value p
  let q ← value q
  if r = '=' then
    if q % 16 = 0 then return [UInt8.ofNat (p * 4 + q / 16)] else none
  else
    let r ← value r
    if r % 4 = 0 then return [UInt8.ofNat (p * 4 + q / 16), UInt8.ofNat (q % 16 * 16 + r / 4)] else none

def decodeGroup (p q r s : Char) : Option (List UInt8) := do
  let p ← value p
  let q ← value q
  let r ← value r
  let s ← value s
  return [UInt8.ofNat (p * 4 + q / 16), UInt8.ofNat (q % 16 * 16 + r / 4), UInt8.ofNat (r % 4 * 64 + s)]

def decode : List Char → Option (List UInt8)
  | [] => some []
  | p :: q :: r :: s :: rest =>
    if s = '=' then if rest = [] then decodeLast p q r else none
    else do
      let bytes ← decodeGroup p q r s
      let others ← decode rest
      return bytes ++ others
  | _ => none

theorem value_digit {n : ℕ} (h : n < 64) : value (digit n) = some n := by
  have hall : ∀ n : Fin 64, value (digit n) = some n.val := by decide +kernel
  exact hall ⟨n, h⟩

theorem value_eq_some {c : Char} {n : ℕ} (h : value c = some n) : n < 64 ∧ digit n = c := by
  obtain ⟨hlt, hget, -⟩ := List.idxOf?_eq_some_iff.mp h
  refine ⟨hlt, ?_⟩
  rw [digit, List.getD_eq_getElem?_getD, List.getElem?_eq_getElem hlt]
  exact hget

theorem digit_ne_pad {n : ℕ} (h : n < 64) : digit n ≠ '=' := by
  have hall : ∀ n : Fin 64, digit n ≠ '=' := by decide +kernel
  exact hall ⟨n, h⟩

variable {p q r s : ℕ}

theorem toNat_ofNat {n : ℕ} (h : n < 256) : (UInt8.ofNat n).toNat = n := by
  rw [UInt8.toNat_ofNat']
  exact Nat.mod_eq_of_lt h

theorem ofNat_eq (a : UInt8) {n : ℕ} (h : n = a.toNat) : UInt8.ofNat n = a := by
  rw [h, UInt8.ofNat_toNat]

theorem encode_one (hp : p < 64) (hq : q < 64) (hlast : q % 16 = 0) :
    encode [UInt8.ofNat (p * 4 + q / 16)] = [digit p, digit q, '=', '='] := by
  have hfirst : (p * 4 + q / 16) / 4 = p := by omega
  have hsecond : (p * 4 + q / 16) % 4 * 16 = q := by omega
  rw [encode, toNat_ofNat (by omega), hfirst, hsecond]

theorem encode_two (hp : p < 64) (hq : q < 64) (hr : r < 64) (hlast : r % 4 = 0) :
    encode [UInt8.ofNat (p * 4 + q / 16), UInt8.ofNat (q % 16 * 16 + r / 4)] = [digit p, digit q, digit r, '='] := by
  have hfirst : (p * 4 + q / 16) / 4 = p := by omega
  have hsecond : (p * 4 + q / 16) % 4 * 16 + (q % 16 * 16 + r / 4) / 16 = q := by omega
  have hthird : (q % 16 * 16 + r / 4) % 16 * 4 = r := by omega
  rw [encode, toNat_ofNat (by omega), toNat_ofNat (by omega), hfirst, hsecond, hthird]

theorem encode_three (hp : p < 64) (hq : q < 64) (hr : r < 64) (hs : s < 64) (rest : List UInt8) :
    encode ([UInt8.ofNat (p * 4 + q / 16), UInt8.ofNat (q % 16 * 16 + r / 4), UInt8.ofNat (r % 4 * 64 + s)] ++ rest) =
      digit p :: digit q :: digit r :: digit s :: encode rest := by
  have hfirst : (p * 4 + q / 16) / 4 = p := by omega
  have hsecond : (p * 4 + q / 16) % 4 * 16 + (q % 16 * 16 + r / 4) / 16 = q := by omega
  have hthird : (q % 16 * 16 + r / 4) % 16 * 4 + (r % 4 * 64 + s) / 64 = r := by omega
  have hfourth : (r % 4 * 64 + s) % 64 = s := by omega
  rw [List.cons_append, List.cons_append, List.cons_append, List.nil_append, encode, toNat_ofNat (by omega),
    toNat_ofNat (by omega), toNat_ofNat (by omega), hfirst, hsecond, hthird, hfourth]

theorem decode_encode (bytes : List UInt8) : decode (encode bytes) = some bytes := by
  induction bytes using encode.induct with
  | case1 => rfl
  | case2 a =>
    have ha := a.toNat_lt
    rw [encode, decode, if_pos rfl, if_pos rfl, decodeLast, value_digit (by omega), value_digit (by omega)]
    simp only [Option.bind_eq_bind, Option.bind_some, if_true, Nat.mul_mod_left]
    rw [ofNat_eq a (by omega)]
    rfl
  | case3 a b =>
    have ha := a.toNat_lt
    have hb := b.toNat_lt
    rw [encode, decode, if_pos rfl, if_pos rfl, decodeLast, value_digit (by omega), value_digit (by omega),
      value_digit (by omega)]
    simp only [Option.bind_eq_bind, Option.bind_some]
    rw [if_neg (digit_ne_pad (by omega)), if_pos (by omega), ofNat_eq a (by omega), ofNat_eq b (by omega)]
    rfl
  | case4 a b c rest ih =>
    have ha := a.toNat_lt
    have hb := b.toNat_lt
    have hc := c.toNat_lt
    rw [encode, decode, if_neg (digit_ne_pad (by omega)), ih, decodeGroup, value_digit (by omega),
      value_digit (by omega), value_digit (by omega), value_digit (by omega)]
    simp only [Option.bind_eq_bind, Option.bind_some]
    rw [ofNat_eq a (by omega), ofNat_eq b (by omega), ofNat_eq c (by omega)]
    rfl

theorem encode_decodeLast {p q r : Char} {bytes : List UInt8} (h : decodeLast p q r = some bytes) :
    encode bytes = [p, q, r, '='] := by
  obtain ⟨m, hm, hrest⟩ := Option.bind_eq_some_iff.mp h
  obtain ⟨n, hn, hlast⟩ := Option.bind_eq_some_iff.mp hrest
  obtain ⟨hp, hpchar⟩ := value_eq_some hm
  obtain ⟨hq, hqchar⟩ := value_eq_some hn
  by_cases hpad : r = '='
  · rw [if_pos hpad] at hlast
    by_cases hzero : n % 16 = 0
    · rw [if_pos hzero] at hlast
      cases hlast
      rw [encode_one hp hq hzero, hpchar, hqchar, hpad]
    · rw [if_neg hzero] at hlast
      cases hlast
  · rw [if_neg hpad] at hlast
    obtain ⟨k, hk, hthird⟩ := Option.bind_eq_some_iff.mp hlast
    obtain ⟨hr, hrchar⟩ := value_eq_some hk
    by_cases hzero : k % 4 = 0
    · rw [if_pos hzero] at hthird
      cases hthird
      rw [encode_two hp hq hr hzero, hpchar, hqchar, hrchar]
    · rw [if_neg hzero] at hthird
      cases hthird

theorem encode_decodeGroup {p q r s : Char} {bytes : List UInt8} (h : decodeGroup p q r s = some bytes)
    (rest : List UInt8) : encode (bytes ++ rest) = p :: q :: r :: s :: encode rest := by
  simp only [decodeGroup, Option.bind_eq_bind, Option.bind_eq_some_iff] at h
  obtain ⟨m, hm, n, hn, k, hk, l, hl, hbytes⟩ := h
  obtain ⟨hp, hpchar⟩ := value_eq_some hm
  obtain ⟨hq, hqchar⟩ := value_eq_some hn
  obtain ⟨hr, hrchar⟩ := value_eq_some hk
  obtain ⟨hs, hschar⟩ := value_eq_some hl
  cases hbytes
  rw [encode_three hp hq hr hs, hpchar, hqchar, hrchar, hschar]

theorem encode_of_decode {text : List Char} {bytes : List UInt8} (h : decode text = some bytes) :
    encode bytes = text := by
  induction text using decode.induct generalizing bytes with
  | case1 =>
    cases h
    rfl
  | case2 p q r =>
    rw [decode, if_pos rfl, if_pos rfl] at h
    exact encode_decodeLast h
  | case3 p q r rest hrest =>
    rw [decode, if_pos rfl, if_neg hrest] at h
    cases h
  | case4 p q r s rest hpad ih =>
    rw [decode, if_neg hpad] at h
    obtain ⟨group, hgroup, hothers⟩ := Option.bind_eq_some_iff.mp h
    obtain ⟨others, hrest, hbytes⟩ := Option.bind_eq_some_iff.mp hothers
    cases hbytes
    rw [encode_decodeGroup hgroup, ih hrest]
  | case5 text hnil hcons =>
    rw [decode] at h
    · cases h
    · exact hnil
    · exact hcons

/-- The decoder accepts the canonical text of bytes and nothing else. -/
theorem decode_eq_some {text : List Char} {bytes : List UInt8} : decode text = some bytes ↔ text = encode bytes := by
  constructor
  · exact fun h => (encode_of_decode h).symm
  · rintro rfl
    exact decode_encode bytes

theorem length_encode (bytes : List UInt8) : (encode bytes).length = 4 * ((bytes.length + 2) / 3) := by
  induction bytes using encode.induct with
  | case1 => rfl
  | case2 a => simp [encode]
  | case3 a b => simp [encode]
  | case4 a b c rest ih =>
    simp only [encode, List.length_cons, ih]
    omega

theorem utf8Size_digit (n : ℕ) : (digit n).utf8Size = 1 := by
  have hall : ∀ n : Fin 64, (digit n).utf8Size = 1 := by decide +kernel
  by_cases h : n < 64
  · exact hall ⟨n, h⟩
  · have hpad : digit n = '=' := by
      rw [digit, List.getD_eq_getElem?_getD, List.getElem?_eq_none (Nat.not_lt.mp h)]
      rfl
    rw [hpad]
    rfl

theorem utf8Size_encode {bytes : List UInt8} : ∀ c ∈ encode bytes, c.utf8Size = 1 := by
  have hpad : '='.utf8Size = 1 := rfl
  induction bytes using encode.induct with
  | case1 => simp [encode]
  | case2 a => simp [encode, utf8Size_digit, hpad]
  | case3 a b => simp [encode, utf8Size_digit, hpad]
  | case4 a b c rest ih => simpa [encode, utf8Size_digit] using ih

end PaddedBase64
