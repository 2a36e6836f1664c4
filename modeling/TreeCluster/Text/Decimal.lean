/-! # Decimal numerals

The digits of a natural number without leading zeros (`digits`), the value of a digit string
with any number of them (`value?`), and the two as texts.  A number is read back from its digits
(`value?_digits`). -/

namespace TreeCluster.Text.Decimal

/-- The character of a digit below ten. -/
def digitChar (d : Nat) : Char :=
  Char.ofNat ('0'.toNat + d)

/-- The number a digit stands for. -/
def digitValue (c : Char) : Nat :=
  c.toNat - '0'.toNat

/-- The decimal digits of a number, most significant first, without leading zeros. -/
def digits (n : Nat) : List Char :=
  if n < 10 then [digitChar n] else digits (n / 10) ++ [digitChar (n % 10)]

/-- The number written by decimal digits, read from the left onto `start`. -/
def valueFrom (start : Nat) : List Char → Nat
  | [] => start
  | c :: rest => valueFrom (start * 10 + digitValue c) rest

/-- The number written by a text of at least one digit; leading zeros are allowed. -/
def value? (text : List Char) : Option Nat :=
  if text ≠ [] ∧ text.all Char.isDigit then some (valueFrom 0 text) else none

/-- The numeral of a natural number. -/
def text (n : Nat) : String :=
  String.ofList (digits n)

/-- The numeral of an integer, with a minus sign below zero. -/
def signed (i : Int) : String :=
  if i < 0 then "-" ++ text i.natAbs else text i.natAbs

/-- The numeral padded with zeros on the left to at least `width` digits. -/
def padded (width n : Nat) : String :=
  let ds := digits n
  String.ofList (List.replicate (width - ds.length) '0' ++ ds)

theorem digits_ne_nil (n : Nat) : digits n ≠ [] := by
  unfold digits
  split <;> simp

theorem digits_of_lt {n : Nat} (h : n < 10) : digits n = [digitChar n] := by
  rw [digits]
  exact if_pos h

theorem digits_of_not_lt {n : Nat} (h : ¬n < 10) :
    digits n = digits (n / 10) ++ [digitChar (n % 10)] := by
  rw [digits]
  exact if_neg h

theorem isDigit_digitChar {d : Nat} (h : d < 10) : (digitChar d).isDigit = true := by
  have all : ∀ d < 10, (digitChar d).isDigit = true := by decide
  exact all d h

theorem digitValue_digitChar {d : Nat} (h : d < 10) : digitValue (digitChar d) = d := by
  have all : ∀ d < 10, digitValue (digitChar d) = d := by decide
  exact all d h

theorem isDigit_of_mem_digits {n : Nat} {c : Char} (h : c ∈ digits n) : c.isDigit = true := by
  induction n using digits.induct with
  | case1 n small =>
    rw [digits_of_lt small, List.mem_singleton] at h
    rw [h]
    exact isDigit_digitChar small
  | case2 n large ih =>
    rw [digits_of_not_lt large, List.mem_append, List.mem_singleton] at h
    rcases h with front | rfl
    · exact ih front
    · exact isDigit_digitChar (Nat.mod_lt n (by decide))

/-- A numeral is made of digits only. -/
theorem notMem_digits {c : Char} (h : c.isDigit = false) (n : Nat) : c ∉ digits n := by
  intro inside
  rw [isDigit_of_mem_digits inside] at h
  cases h

/-- No numeral but that of zero starts with the digit zero. -/
theorem digits_eq_cons_zero {n : Nat} {rest : List Char} (h : digits n = '0' :: rest) :
    n = 0 ∧ rest = [] := by
  induction n using digits.induct generalizing rest with
  | case1 n small =>
    rw [digits_of_lt small] at h
    obtain ⟨zero, rfl⟩ := List.cons.inj h
    have value : digitValue (digitChar n) = 0 := by rw [zero]; rfl
    exact ⟨(digitValue_digitChar small).symm.trans value, rfl⟩
  | case2 n large ih =>
    rw [digits_of_not_lt large] at h
    cases front : digits (n / 10) with
    | nil => exact absurd front (digits_ne_nil _)
    | cons c more =>
      rw [front, List.cons_append] at h
      obtain ⟨rfl, -⟩ := List.cons.inj h
      obtain ⟨small, -⟩ := ih front
      omega

theorem valueFrom_append (start : Nat) (front back : List Char) :
    valueFrom start (front ++ back) = valueFrom (valueFrom start front) back := by
  induction front generalizing start with
  | nil => rfl
  | cons c front ih => exact ih _

theorem le_valueFrom (start : Nat) (text : List Char) : start ≤ valueFrom start text := by
  induction text generalizing start with
  | nil => exact Nat.le_refl start
  | cons c rest ih => exact Nat.le_trans (by omega) (ih (start * 10 + digitValue c))

theorem valueFrom_digits (n : Nat) : valueFrom 0 (digits n) = n := by
  induction n using digits.induct with
  | case1 n small =>
    have value : valueFrom 0 [digitChar n] = 0 * 10 + digitValue (digitChar n) := rfl
    rw [digits_of_lt small, value, digitValue_digitChar small]
    omega
  | case2 n large ih =>
    have last : n % 10 < 10 := Nat.mod_lt n (by decide)
    have value : valueFrom (n / 10) [digitChar (n % 10)] =
        n / 10 * 10 + digitValue (digitChar (n % 10)) := rfl
    rw [digits_of_not_lt large, valueFrom_append, ih, value, digitValue_digitChar last]
    omega

/-- A number is read back from its digits. -/
theorem value?_digits (n : Nat) : value? (digits n) = some n := by
  have all : (digits n).all Char.isDigit = true :=
    List.all_eq_true.mpr fun _ => isDigit_of_mem_digits
  rw [value?, if_pos ⟨digits_ne_nil n, all⟩, valueFrom_digits]

end TreeCluster.Text.Decimal
