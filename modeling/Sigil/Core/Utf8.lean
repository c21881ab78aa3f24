import Mathlib.Data.String.Basic
import Mathlib.Data.List.Basic

namespace Sigil
namespace Core

/-!
# Bytes of a text

The encoding of a text in bytes, and the reader that puts a replacement character in the
place of what is no part of an encoding.
-/

/-- The bytes of a text. -/
def utf8Bytes (s : String) : List UInt8 :=
  s.toByteArray.data.toList

/-- A byte that continues a character. -/
def isContinuation (b : UInt8) : Bool :=
  0x80 ≤ b && b < 0xC0

/-- The second byte does not rule out a character that starts with the first one. -/
def isSecondByte (first second : UInt8) : Bool :=
  if first = 0xE0 then 0xA0 ≤ second && second < 0xC0
  else if first = 0xED then 0x80 ≤ second && second < 0xA0
  else if first = 0xF0 then 0x90 ≤ second && second < 0xC0
  else if first = 0xF4 then 0x80 ≤ second && second < 0x90
  else isContinuation second

/-- How many bytes after the first one belong to a character that breaks off: the longest
part that some character begins with. -/
def brokenTail : List UInt8 → Nat
  | first :: second :: rest =>
      if 0xE0 ≤ first && first < 0xF0 && isSecondByte first second then 1
      else if 0xF0 ≤ first && first < 0xF5 && isSecondByte first second then
        match rest with
        | third :: _ => if isContinuation third then 2 else 1
        | [] => 1
      else 0
  | _ => 0

/-- Read characters, after some bytes that have been read already. -/
def decodeLossy : Nat → List UInt8 → List Char
  | _, [] => []
  | skip + 1, _ :: bytes => decodeLossy skip bytes
  | 0, byte :: bytes =>
      match (byte :: bytes).toByteArray.utf8DecodeChar? 0 with
      | some c => c :: decodeLossy (c.utf8Size - 1) bytes
      | none => Char.ofNat 0xFFFD :: decodeLossy (brokenTail (byte :: bytes)) bytes

/-- The text of bytes, with a replacement character for each part that is no encoding. -/
def fromUtf8Lossy (bytes : List UInt8) : String :=
  String.ofList (decodeLossy 0 bytes)

example : fromUtf8Lossy [0x72, 0xE2, 0x82, 0x61] = String.ofList ['r', Char.ofNat 0xFFFD, 'a'] := by
  decide

/-! ## Reading an encoding -/

theorem utf8Bytes_ofList (text : List Char) :
    utf8Bytes (String.ofList text) = text.flatMap String.utf8EncodeChar := by
  unfold utf8Bytes
  rw [String.toByteArray_ofList, List.utf8Encode, List.data_toByteArray, List.toList_toArray]

theorem decodeLossy_skip (skipped bytes : List UInt8) :
    decodeLossy skipped.length (skipped ++ bytes) = decodeLossy 0 bytes := by
  induction skipped with
  | nil => rfl
  | cons byte skipped inductionHypothesis => exact inductionHypothesis

theorem decodeLossy_encode (c : Char) (bytes : List UInt8) :
    decodeLossy 0 (String.utf8EncodeChar c ++ bytes) = c :: decodeLossy 0 bytes := by
  have decoded := ByteArray.utf8DecodeChar?_utf8EncodeChar_append (b := bytes.toByteArray) (c := c)
  rw [← List.toByteArray_append] at decoded
  have size := String.length_utf8EncodeChar c
  cases encoded : String.utf8EncodeChar c with
  | nil =>
      rw [encoded] at size
      exact absurd size (Nat.ne_of_lt c.utf8Size_pos)
  | cons byte others =>
      rw [encoded] at decoded size
      rw [List.cons_append] at decoded ⊢
      have tail : c.utf8Size - 1 = others.length := by
        rw [← size]
        rfl
      rw [decodeLossy, decoded]
      change c :: decodeLossy (c.utf8Size - 1) (others ++ bytes) = _
      rw [tail, decodeLossy_skip]

/-- The bytes of a text are read as the text. -/
theorem fromUtf8Lossy_utf8Bytes (s : String) : fromUtf8Lossy (utf8Bytes s) = s := by
  have characters : ∀ text : List Char,
      decodeLossy 0 (text.flatMap String.utf8EncodeChar) = text := by
    intro text
    induction text with
    | nil => rfl
    | cons c text inductionHypothesis =>
        rw [List.flatMap_cons, decodeLossy_encode, inductionHypothesis]
  rw [← String.ofList_toList (s := s), utf8Bytes_ofList, fromUtf8Lossy, characters]

/-! ## Sizes -/

theorem length_decodeLossy_le (skip : Nat) (bytes : List UInt8) :
    (decodeLossy skip bytes).length ≤ bytes.length := by
  induction bytes generalizing skip with
  | nil => cases skip <;> exact Nat.le_refl 0
  | cons byte bytes inductionHypothesis =>
      cases skip with
      | zero =>
          rw [decodeLossy]
          split
          · exact Nat.succ_le_succ (inductionHypothesis _)
          · exact Nat.succ_le_succ (inductionHypothesis _)
      | succ skip => exact Nat.le_succ_of_le (inductionHypothesis skip)

/-- A character takes at most four bytes. -/
theorem length_utf8Bytes_le (s : String) : (utf8Bytes s).length ≤ 4 * s.toList.length := by
  rw [← String.ofList_toList (s := s), utf8Bytes_ofList, String.toList_ofList]
  induction s.toList with
  | nil => exact Nat.le_refl 0
  | cons c text inductionHypothesis =>
      rw [List.flatMap_cons, List.length_append, String.length_utf8EncodeChar, List.length_cons]
      have size := c.utf8Size_le_four
      omega

end Core
end Sigil
