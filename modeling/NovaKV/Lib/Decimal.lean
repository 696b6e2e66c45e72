import NovaKV.Lib.LittleEndian

namespace NovaKV.Lib

/-- The ASCII digits. -/
def isDigit (byte : UInt8) : Bool := 48 ≤ byte && byte ≤ 57

/-- The number that a string of digits stands for. -/
def digitsValue (digits : Bytes) : Nat := digits.foldl (fun value digit => 10 * value + (digit.toNat - 48)) 0

/-- A number in decimal, without leading zeros. -/
def decimal (n : Nat) : Bytes :=
  if n = 0 then [48] else (Nat.digits 10 n).reverse.map fun digit => UInt8.ofNat (48 + digit)

theorem isDigit_digit {digit : Nat} (h : digit < 10) : isDigit (UInt8.ofNat (48 + digit)) = true := by
  have hnat : (UInt8.ofNat (48 + digit)).toNat = 48 + digit := by
    rw [UInt8.toNat_ofNat']
    omega
  simp only [isDigit, Bool.and_eq_true, decide_eq_true_eq, UInt8.le_iff_toNat_le, hnat]
  constructor
  · change 48 ≤ 48 + digit
    omega
  · change 48 + digit ≤ 57
    omega

theorem decimal_ne_nil (n : Nat) : decimal n ≠ [] := by
  rw [decimal]
  split
  · simp
  · rename_i hn
    simpa [Nat.digits_eq_nil_iff_eq_zero] using hn

theorem isDigit_of_mem_decimal {n : Nat} {byte : UInt8} (h : byte ∈ decimal n) : isDigit byte = true := by
  rw [decimal] at h
  split at h
  · rw [List.mem_singleton] at h
    subst h
    rfl
  · obtain ⟨digit, hdigit, rfl⟩ := List.mem_map.mp h
    exact isDigit_digit (Nat.digits_lt_base (by decide) (List.mem_reverse.mp hdigit))

theorem digitsValue_map_reverse (digits : List Nat) (h : ∀ digit ∈ digits, digit < 10) :
    digitsValue (digits.reverse.map fun digit => UInt8.ofNat (48 + digit)) = Nat.ofDigits 10 digits := by
  induction digits with
  | nil => rfl
  | cons digit digits ih =>
    have hnat : (UInt8.ofNat (48 + digit)).toNat = 48 + digit := by
      rw [UInt8.toNat_ofNat']
      have hdigit := h digit List.mem_cons_self
      omega
    have hrest := ih fun other hother => h other (List.mem_cons_of_mem _ hother)
    rw [digitsValue] at hrest ⊢
    rw [List.reverse_cons, List.map_append, List.foldl_append, hrest, Nat.ofDigits_cons]
    simp only [List.map_cons, List.map_nil, List.foldl_cons, List.foldl_nil, hnat]
    omega

/-- Writing a number in decimal and reading it back. -/
theorem digitsValue_decimal (n : Nat) : digitsValue (decimal n) = n := by
  rw [decimal]
  split
  · rename_i hn
    rw [hn]
    rfl
  · rw [digitsValue_map_reverse _ fun digit hdigit => Nat.digits_lt_base (by decide) hdigit]
    exact Nat.ofDigits_digits 10 n

end NovaKV.Lib
