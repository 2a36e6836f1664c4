import Mathlib
import TreeCluster.Json.Scanner
import TreeCluster.Json.Value

/-! # Strings and numbers scanned back

Each character of a written string is scanned as itself: what the writer escapes, the scanner
takes for one escape (`scanString_escapeChar`).  So a string is scanned back up to its closing
quote, whatever follows it (`scanString_chars`).

A numeral says nothing of its end, so a number is scanned back only in front of a text that could
not go on with it (`Ends`, `scanNumber_digits`). -/

namespace TreeCluster.Json

open Text

/-! ### Strings -/

theorem hexFour_control {n : ℕ} (small : n < 32) (rest : List Char) :
    hexFour ('0' :: '0' :: Hexadecimal.digitChar (n / 16) :: Hexadecimal.digitChar (n % 16) ::
      rest) = .ok n := by
  have zero : Hexadecimal.digitValue? '0' = some 0 := by decide
  have high := Hexadecimal.digitValue?_digitChar (show n / 16 < 16 by omega)
  have low := Hexadecimal.digitValue?_digitChar (show n % 16 < 16 by omega)
  simp only [hexFour, zero, high, low, Except.ok.injEq]
  omega

theorem escaped_control {c : Char} (small : c.toNat < 32) (rest : List Char) :
    escaped ('u' :: '0' :: '0' :: Hexadecimal.digitChar (c.toNat / 16) ::
      Hexadecimal.digitChar (c.toNat % 16) :: rest) = .ok (c, 5) := by
  have digits := hexFour_control small rest
  simp only [escaped, unicodeEscape, digits, bind, Except.bind]
  rw [if_neg (by omega), if_pos (by omega), Char.ofNat_toNat]
  rfl

/-- A character is scanned back from the way it is written. -/
theorem scanString_escapeChar (c : Char) (rest : List Char) :
    scanString (escapeChar c ++ rest) =
      (scanString rest).map fun (cs, after) => (c :: cs, after) := by
  unfold escapeChar
  split
  -- the escapes of one letter
  iterate 7
    · rw [List.cons_append, List.cons_append, List.nil_append, scanString.eq_def]
      rfl
  · split_ifs with control
    · simp only [List.cons_append, List.nil_append]
      rw [scanString.eq_def]
      simp only [escaped_control control]
      rfl
    · rw [List.singleton_append, scanString.eq_def]
      split <;> simp_all

/-- A string is scanned back up to its closing quote. -/
theorem scanString_chars (cs rest : List Char) :
    scanString (cs.flatMap escapeChar ++ '"' :: rest) = .ok (cs, rest) := by
  induction cs with
  | nil =>
      rw [List.flatMap_nil, List.nil_append, scanString.eq_def]
      rfl
  | cons c cs ih =>
      rw [List.flatMap_cons, List.append_assoc, scanString_escapeChar, ih]
      rfl

/-! ### Numbers -/

/-- Nothing follows a value, or a character that ends it. -/
def Ends (rest : List Char) : Prop :=
  ∀ c ∈ rest.head?, c = ',' ∨ c = ']' ∨ c = '\x7d'

theorem ends_nil : Ends [] :=
  nofun

theorem ends_cons {c : Char} (h : c = ',' ∨ c = ']' ∨ c = '\x7d') (rest : List Char) :
    Ends (c :: rest) := by
  simpa [Ends] using h

theorem Ends.not_number {c : Char} {rest : List Char} (h : Ends (c :: rest)) :
    c.isDigit = false ∧ c ≠ '.' ∧ c ≠ 'e' ∧ c ≠ 'E' := by
  rcases h c rfl with rfl | rfl | rfl <;> decide

theorem takeWhile_digits {rest : List Char} (h : Ends rest) (n : ℕ) :
    (Decimal.digits n ++ rest).takeWhile Char.isDigit = Decimal.digits n ∧
      (Decimal.digits n ++ rest).dropWhile Char.isDigit = rest := by
  have all : ∀ c ∈ Decimal.digits n, c.isDigit = true := fun _ => Decimal.isDigit_of_mem_digits
  rw [List.takeWhile_append_of_pos all, List.dropWhile_append_of_pos all]
  cases rest with
  | nil => simp
  | cons c rest =>
      have other : ¬c.isDigit = true := by simp [h.not_number.1]
      rw [List.takeWhile_cons_of_neg other, List.dropWhile_cons_of_neg other, List.append_nil]
      exact ⟨rfl, rfl⟩

/-- Digits are collected as long as their value is kept exactly. -/
theorem foldl_push (value : ℕ) (ds : List Char) (h : Decimal.valueFrom value ds ≤ maxWhole) :
    ds.foldl Significand.push ⟨value, 0⟩ = ⟨Decimal.valueFrom value ds, 0⟩ := by
  induction ds generalizing value with
  | nil => rfl
  | cons c ds ih =>
      have fits := (Decimal.le_valueFrom (value * 10 + Decimal.digitValue c) ds).trans h
      have push : Significand.push ⟨value, 0⟩ c = ⟨value * 10 + Decimal.digitValue c, 0⟩ := by
        rw [Significand.push, if_neg (by simpa using fits)]
      rw [List.foldl_cons, push]
      exact ih _ h

theorem scanFraction_of_ends {rest : List Char} (h : Ends rest) (n : ℕ) :
    scanFraction false ⟨n, 0⟩ rest = .ok (.whole n, rest) := by
  cases rest with
  | nil => rfl
  | cons c rest =>
      obtain ⟨-, point, small, large⟩ := h.not_number
      unfold scanFraction
      split <;> simp_all

/-- A whole number of 64 bits is scanned back from its digits. -/
theorem scanNumber_digits {n : ℕ} (whole : n ≤ maxWhole) {rest : List Char} (h : Ends rest) :
    scanNumber false (Decimal.digits n ++ rest) = .ok (.whole n, rest) := by
  cases hd : Decimal.digits n with
  | nil => exact absurd hd (Decimal.digits_ne_nil n)
  | cons c more =>
      have digit : c.isDigit = true :=
        Decimal.isDigit_of_mem_digits (n := n) (hd ▸ List.mem_cons_self)
      rw [List.cons_append]
      unfold scanNumber
      split
      · next impossible => cases impossible
      · next zero =>
          -- a numeral that starts with zero is that of zero
          obtain ⟨rfl, rfl⟩ := List.cons.inj zero
          obtain ⟨rfl, rfl⟩ := Decimal.digits_eq_cons_zero hd
          cases rest with
          | nil => exact scanFraction_of_ends h 0
          | cons c rest =>
              simp only [List.nil_append, h.not_number.1]
              exact scanFraction_of_ends h 0
      · next split =>
          obtain ⟨rfl, rfl⟩ := List.cons.inj split
          obtain ⟨digits, after⟩ := takeWhile_digits h n
          rw [hd, List.cons_append] at digits after
          have value := Decimal.valueFrom_digits n
          rw [hd] at value
          rw [digits, after, foldl_push 0 _ (by rwa [value]), value]
          simpa [digit] using scanFraction_of_ends h n

end TreeCluster.Json
