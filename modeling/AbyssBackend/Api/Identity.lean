import AbyssBackend.Library.Words
import AbyssBackend.Usage.AttachmentLists
import AbyssBackend.Usage.Summary

namespace AbyssBackend.Api

open Attachments Attempts Text Words

/-- The variants of `AppError`, with those that no storage raises. -/
inductive RequestError
  | config (message : String)
  | unauthorized (message : String)
  | app (error : AppError)
deriving DecidableEq, Repr

/-- The headers of a request in order, under their lowercase names. -/
abbrev HeaderMap := List (String × List UInt8)

def authorization : String := "authorization"

def visibleAscii (byte : UInt8) : Bool := (32 ≤ byte.toNat && byte.toNat < 127) || byte.toNat = 9

def asciiText (value : List UInt8) : List Char := value.map fun byte => Char.ofNat byte.toNat

/-- Rust's `HeaderValue::to_str`. -/
def toStr (value : List UInt8) : Option (List Char) :=
  if value.all visibleAscii then some (asciiText value) else none

/-- The owner that the first migration seeds. -/
def ownerId : Uuid := 1

structure IdentityConfig where
  tokenHash : List UInt8
  length_tokenHash : tokenHash.length = 32

def invalidHash : RequestError :=
  .config "ABYSS_BACKEND_API_TOKEN_SHA256 must be 64 lowercase hexadecimal characters"

def IdentityConfig.parse (encodedHash : String) : Except RequestError IdentityConfig :=
  match hexDecode encodedHash.toList with
  | none => .error invalidHash
  | some bytes =>
    if h : bytes.length = 32 then
      if encodedHash ≠ hexEncode bytes then .error invalidHash else .ok ⟨bytes, h⟩
    else .error invalidHash

def bearerToken (headers : HeaderMap) : Except RequestError String :=
  match headers.lookup authorization with
  | none => .error (.unauthorized "bearer token required")
  | some value =>
    match toStr value with
    | none => .error (.unauthorized "invalid authorization header")
    | some text =>
      let parts := words isWhitespace text
      let scheme := String.ofList (parts.getD 0 [])
      let token := String.ofList (parts.getD 1 [])
      if toAsciiLowercase scheme ≠ "bearer" ∨ token = "" ∨ parts[2]?.isSome then
        .error (.unauthorized "authorization header must contain one bearer token")
      else .ok token

def IdentityConfig.authenticate [Sha256] (config : IdentityConfig) (headers : HeaderMap) :
    Except RequestError Uuid := do
  let token ← bearerToken headers
  if Sha256.digest token ≠ config.tokenHash then throw (.unauthorized "invalid bearer token")
  return ownerId

section Tokens

variable {headers : HeaderMap} {encodedHash token : String} {config : IdentityConfig}

theorem parse_eq_ok : IdentityConfig.parse encodedHash = .ok config ↔ encodedHash = hexEncode config.tokenHash := by
  unfold IdentityConfig.parse
  constructor
  · intro h
    split at h
    · cases h
    · split_ifs at h with hlength hsame
      cases h
      exact not_not.mp hsame
  · rintro rfl
    rw [hexDecode_hexEncode]
    simp [config.length_tokenHash]

/-- One bearer token in the header, with nothing but blanks around the scheme and the token. -/
def Bears (headers : HeaderMap) (token : String) : Prop :=
  ∃ value front scheme gap back, headers.lookup authorization = some value ∧
    (∀ byte ∈ value, visibleAscii byte = true) ∧ asciiText value = front ++ scheme ++ gap ++ token.toList ++ back ∧
    (∀ c ∈ front, isWhitespace c = true) ∧ (∀ c ∈ gap, isWhitespace c = true) ∧
    (∀ c ∈ back, isWhitespace c = true) ∧ gap ≠ [] ∧ Word isWhitespace scheme ∧ Word isWhitespace token.toList ∧
    toAsciiLowercase (String.ofList scheme) = "bearer"

theorem toStr_eq_some {value : List UInt8} {text : List Char} :
    toStr value = some text ↔ (∀ byte ∈ value, visibleAscii byte = true) ∧ asciiText value = text := by
  unfold toStr
  rw [Option.ite_none_right_eq_some, List.all_eq_true, Option.some_inj]

/-- The words that are taken for a scheme and a token. -/
theorem bearer_words {parts : List (List Char)} :
    ¬ (toAsciiLowercase (String.ofList (parts.getD 0 [])) ≠ "bearer" ∨ String.ofList (parts.getD 1 []) = "" ∨
      parts[2]?.isSome) ↔
    ∃ scheme token, parts = [scheme, token] ∧ toAsciiLowercase (String.ofList scheme) = "bearer" ∧ token ≠ [] := by
  simp only [not_or, not_not]
  constructor
  · rintro ⟨hscheme, htoken, hmore⟩
    match parts with
    | [] => exact absurd hscheme (by decide)
    | [_] => exact absurd rfl htoken
    | [scheme, token] =>
      refine ⟨scheme, token, rfl, hscheme, ?_⟩
      rintro rfl
      exact htoken rfl
    | _ :: _ :: _ :: _ => exact absurd rfl hmore
  · rintro ⟨scheme, token, rfl, hscheme, htoken⟩
    refine ⟨hscheme, fun hempty => htoken ?_, by simp⟩
    exact String.ofList_injective hempty

theorem bearerToken_eq_ok : bearerToken headers = .ok token ↔ Bears headers token := by
  constructor
  · intro h
    unfold bearerToken at h
    split at h
    · cases h
    · next value hlookup =>
      split at h
      · cases h
      · next text htext =>
        obtain ⟨hvisible, rfl⟩ := toStr_eq_some.mp htext
        dsimp only at h
        split at h
        · cases h
        · next hparts =>
          cases h
          obtain ⟨scheme, token, hwords, hscheme, htoken⟩ := bearer_words.mp hparts
          obtain ⟨front, gap, back, hshape, hfront, hgap, hback, hne, hfirst, hsecond⟩ := words_eq_pair.mp hwords
          simp only [hwords, List.getD_cons_succ, List.getD_cons_zero]
          refine ⟨value, front, scheme, gap, back, hlookup, hvisible, ?_, hfront, hgap, hback, hne, hfirst, ?_, hscheme⟩
          · rw [String.toList_ofList, hshape]
          · rwa [String.toList_ofList]
  · rintro ⟨value, front, scheme, gap, back, hlookup, hvisible, hshape, hfront, hgap, hback, hne, hfirst, hsecond,
      hscheme⟩
    have hwords : words isWhitespace (asciiText value) = [scheme, token.toList] :=
      words_eq_pair.mpr ⟨front, gap, back, hshape, hfront, hgap, hback, hne, hfirst, hsecond⟩
    have hparts := bearer_words.mpr ⟨scheme, token.toList, hwords, hscheme, hsecond.nonempty⟩
    unfold bearerToken
    rw [hlookup]
    dsimp only
    rw [toStr_eq_some.mpr ⟨hvisible, rfl⟩]
    dsimp only
    rw [if_neg hparts, hwords]
    exact congrArg Except.ok String.ofList_toList

theorem bearerToken_error {error : RequestError} (h : bearerToken headers = .error error) :
    ∃ message, error = .unauthorized message := by
  unfold bearerToken at h
  split at h
  · cases h
    exact ⟨_, rfl⟩
  · split at h
    · cases h
      exact ⟨_, rfl⟩
    · dsimp only at h
      split at h
      · cases h
        exact ⟨_, rfl⟩
      · cases h

variable [Sha256]

theorem IdentityConfig.authenticate_eq_ok {userId : Uuid} : config.authenticate headers = .ok userId ↔
    userId = ownerId ∧ ∃ token, Bears headers token ∧ Sha256.digest token = config.tokenHash := by
  unfold IdentityConfig.authenticate
  rw [bind_eq_ok]
  constructor
  · rintro ⟨token, htoken, h⟩
    split at h
    · cases h
    · next hsame =>
      cases h
      exact ⟨rfl, token, bearerToken_eq_ok.mp htoken, not_not.mp hsame⟩
  · rintro ⟨rfl, token, hbears, hsame⟩
    refine ⟨token, bearerToken_eq_ok.mpr hbears, ?_⟩
    rw [if_neg (not_not.mpr hsame)]
    rfl

theorem IdentityConfig.authenticate_error {error : RequestError} (h : config.authenticate headers = .error error) :
    ∃ message, error = .unauthorized message := by
  obtain hfirst | ⟨token, -, h⟩ := bind_eq_error.mp h
  · exact bearerToken_error hfirst
  · split at h
    · cases h
      exact ⟨_, rfl⟩
    · cases h

end Tokens

end AbyssBackend.Api
