import Mathlib.Data.List.Basic
import Mathlib.Tactic.IntervalCases
import Mathlib.Tactic.Ring

/-!
# Decimal text

Decimal numbers as ASCII bytes, most significant digit first. `text` writes a natural number and
`value` reads the digits back (`value_text`). A proper prefix of the text of a positive number
has a smaller positive value (`value_prefix_lt`, `value_pos`).
-/

namespace DecimalText

/-- The byte of a decimal digit. -/
def digit (d : Nat) : UInt8 := UInt8.ofNat (48 + d)

/-- Bytes `0` to `9` of ASCII. -/
def IsDigit (byte : UInt8) : Prop := 48 ≤ byte.toNat ∧ byte.toNat ≤ 57

/-- Being a digit is decidable by two comparisons. -/
instance (byte : UInt8) : Decidable (IsDigit byte) := inferInstanceAs (Decidable (_ ∧ _))

/-- The decimal digits of a natural number. -/
def text (n : Nat) : List UInt8 := (Nat.toDigits 10 n).map fun c => UInt8.ofNat c.toNat

/-- The decimal digits of an integer, with its sign if it is negative. -/
def signedText (n : Int) : List UInt8 :=
  if n < 0 then 45 :: text n.natAbs else text n.natAbs

/-- The number that a list of digits spells. -/
def value (digits : List UInt8) : Nat :=
  digits.foldl (fun n byte => 10 * n + (byte.toNat - 48)) 0

/-- A decimal digit as a number. -/
theorem to_nat_digit {d : Nat} (h : d < 10) : (digit d).toNat = 48 + d := by
  interval_cases d <;> rfl

/-- A decimal digit is written as a digit byte. -/
theorem is_digit_digit {d : Nat} (h : d < 10) : IsDigit (digit d) := by
  rw [IsDigit, to_nat_digit h]
  omega

/-- The last digit comes off the end of the text. -/
theorem text_eq (n : Nat) :
    text n = (if n < 10 then [] else text (n / 10)) ++ [digit (n % 10)] := by
  have hchar : ∀ d < 10, UInt8.ofNat (Nat.digitChar d).toNat = digit d := by
    intro d hd
    interval_cases d <;> rfl
  have hmod : n % 10 < 10 := Nat.mod_lt _ (by omega)
  rw [text, Nat.toDigits_eq_if (by omega)]
  split
  · next hsmall => simp [hchar n hsmall, Nat.mod_eq_of_lt hsmall]
  · simp [text, hchar _ hmod]

/-- Every byte of the text is a digit. -/
theorem is_digit_of_mem_text {n : Nat} {byte : UInt8} (h : byte ∈ text n) : IsDigit byte := by
  induction n using Nat.strongRecOn generalizing byte with
  | ind n ih =>
      rw [text_eq] at h
      rcases List.mem_append.mp h with h | h
      · split at h
        · simp at h
        · exact ih (n / 10) (by omega) h
      · rw [List.mem_singleton.mp h]
        exact is_digit_digit (Nat.mod_lt _ (by omega))

/-- A number with at most `k + 1` digits has a text of at most that length. -/
theorem length_text_le {n : Nat} (k : Nat) (h : n < 10 ^ (k + 1)) : (text n).length ≤ k + 1 := by
  induction k generalizing n with
  | zero =>
      rw [text_eq, if_pos (by omega)]
      exact le_rfl
  | succ k ih =>
      rw [text_eq]
      split
      · simp
      · have hrest := ih (n := n / 10) (by rw [Nat.pow_succ] at h; omega)
        simpa using hrest

/-- The text of a positive number does not start with a zero. -/
theorem head_text_pos {n : Nat} (hpos : 0 < n) :
    ∃ byte rest, text n = byte :: rest ∧ 48 < byte.toNat := by
  induction n using Nat.strongRecOn with
  | ind n ih =>
      rw [text_eq]
      split
      · next hsmall =>
        refine ⟨_, [], rfl, ?_⟩
        rw [Nat.mod_eq_of_lt hsmall, to_nat_digit hsmall]
        omega
      · obtain ⟨byte, rest, htext, hbyte⟩ := ih (n / 10) (by omega) (by omega)
        exact ⟨byte, rest ++ [digit (n % 10)], by simp [htext], hbyte⟩

/-- Reading on from an already read number. -/
theorem foldl_value (n : Nat) (digits : List UInt8) :
    digits.foldl (fun n byte => 10 * n + (byte.toNat - 48)) n =
      n * 10 ^ digits.length + value digits := by
  induction digits generalizing n with
  | nil => simp [value]
  | cons byte digits ih =>
      rw [value, List.foldl_cons, List.foldl_cons, ih, ih (10 * 0 + _), List.length_cons]
      ring

/-- The value of two texts one after the other. -/
theorem value_append (first rest : List UInt8) :
    value (first ++ rest) = value first * 10 ^ rest.length + value rest := by
  rw [value, List.foldl_append, foldl_value]
  rfl

/-- Reading the text of a number gives the number back. -/
@[simp] theorem value_text (n : Nat) : value (text n) = n := by
  induction n using Nat.strongRecOn with
  | ind n ih =>
      have hdigit : value [digit (n % 10)] = n % 10 := by
        simp [value, to_nat_digit (Nat.mod_lt n (by omega : 0 < 10))]
      rw [text_eq, value_append, hdigit]
      split
      · next hsmall => simp [value, Nat.mod_eq_of_lt hsmall]
      · rw [ih (n / 10) (by omega)]
        simp only [List.length_singleton]
        omega

/-- A text that starts with a nonzero digit has a positive value. -/
theorem value_pos {byte : UInt8} {rest : List UInt8} (h : 48 < byte.toNat) :
    0 < value (byte :: rest) := by
  rw [← List.singleton_append, value_append]
  have hbyte : 0 < value [byte] := by
    simp only [value, List.foldl_cons, List.foldl_nil]
    omega
  have hpow : 0 < value [byte] * 10 ^ rest.length := by positivity
  omega

/-- Digits spell zero exactly if they are all zeros. -/
theorem value_eq_zero_iff {digits : List UInt8} (h : ∀ byte ∈ digits, IsDigit byte) :
    value digits = 0 ↔ ∀ byte ∈ digits, byte = 48 := by
  induction digits with
  | nil => simp [value]
  | cons byte rest ih =>
      have hrest := ih fun other hmem => h other (List.mem_cons_of_mem byte hmem)
      have hdigit : IsDigit byte := h byte List.mem_cons_self
      rw [List.forall_mem_cons, ← hrest]
      constructor
      · intro hzero
        have hle : ¬ 48 < byte.toNat := fun hlt => (value_pos hlt).ne' hzero
        have hbyte : byte = 48 := UInt8.toNat_inj.mp (Nat.le_antisymm (Nat.not_lt.mp hle) hdigit.1)
        subst hbyte
        exact ⟨rfl, by simpa [value] using hzero⟩
      · intro hzero
        obtain ⟨rfl, hrest⟩ := hzero
        simpa [value] using hrest

/-- Cutting digits off the end of a positive number makes it smaller. -/
theorem value_prefix_lt {first rest : List UInt8} (hpos : 0 < value first) (hrest : rest ≠ []) :
    value first < value (first ++ rest) := by
  rw [value_append]
  have hlength : 1 ≤ rest.length := List.length_pos_iff.mpr hrest
  have hpow : 10 ^ 1 ≤ 10 ^ rest.length := Nat.pow_le_pow_right (by omega) hlength
  have hmul : value first * 10 ^ 1 ≤ value first * 10 ^ rest.length :=
    Nat.mul_le_mul_left _ hpow
  omega

end DecimalText
