import NovaKV.Lib.LittleEndian

namespace NovaKV.Lib

variable {w : Nat} (poly : BitVec w)

/-- One bit of a reflected cyclic redundancy check: the register moves down by a
bit, and the polynomial is added when the bit that falls out is set. -/
def crcShift (x : BitVec w) : BitVec w := (x >>> 1) ^^^ (if x.getLsbD 0 then poly else 0#w)

def crcShifts : Nat → BitVec w → BitVec w
  | 0, x => x
  | n + 1, x => crcShifts n (crcShift poly x)

/-- A byte is added to the low end of the register and shifted out. -/
def crcByte (x : BitVec w) (byte : UInt8) : BitVec w := crcShifts poly 8 (x ^^^ BitVec.ofNat w byte.toNat)

def crcBytes (x : BitVec w) (bytes : Bytes) : BitVec w := bytes.foldl (crcByte poly) x

theorem crcShift_xor (x y : BitVec w) : crcShift poly (x ^^^ y) = crcShift poly x ^^^ crcShift poly y := by
  have hadd : (if (x ^^^ y).getLsbD 0 then poly else 0#w) =
      (if x.getLsbD 0 then poly else 0#w) ^^^ (if y.getLsbD 0 then poly else 0#w) := by
    rw [BitVec.getLsbD_xor]
    cases x.getLsbD 0 <;> cases y.getLsbD 0 <;> simp
  rw [crcShift, hadd, BitVec.ushiftRight_xor_distrib, crcShift, crcShift]
  ac_rfl

theorem crcShifts_xor (n : Nat) (x y : BitVec w) :
    crcShifts poly n (x ^^^ y) = crcShifts poly n x ^^^ crcShifts poly n y := by
  induction n generalizing x y with
  | zero => rfl
  | succ n ih => rw [crcShifts, crcShift_xor, ih, crcShifts, crcShifts]

theorem crcShifts_add (m n : Nat) (x : BitVec w) :
    crcShifts poly (m + n) x = crcShifts poly n (crcShifts poly m x) := by
  induction m generalizing x with
  | zero => rw [Nat.zero_add, crcShifts]
  | succ m ih => rw [Nat.succ_add, crcShifts, ih, crcShifts]

/-- Bits that no addition reaches only move. -/
theorem crcShifts_shiftLeft {n : Nat} {x : BitVec w} (hx : x.toNat * 2 ^ n < 2 ^ w) :
    crcShifts poly n (x <<< n) = x := by
  induction n with
  | zero => simp [crcShifts]
  | succ n ih =>
    rw [Nat.pow_succ, ← Nat.mul_assoc] at hx
    have hfits : x.toNat * 2 ^ n < 2 ^ w := by omega
    have hdown : (x <<< (n + 1)) >>> 1 = x <<< n := by
      refine BitVec.eq_of_toNat_eq ?_
      rw [BitVec.toNat_ushiftRight, BitVec.toNat_shiftLeft, BitVec.toNat_shiftLeft, Nat.shiftLeft_eq,
        Nat.shiftLeft_eq, Nat.pow_succ, ← Nat.mul_assoc, Nat.mod_eq_of_lt hx, Nat.mod_eq_of_lt hfits,
        Nat.shiftRight_eq_div_pow]
      omega
    have hlow : (x <<< (n + 1)).getLsbD 0 = false := by simp
    rw [crcShifts, crcShift, hdown, hlow, if_neg (by simp), BitVec.xor_zero, ih hfits]

/-- The top bit tells whether the polynomial was added, so a shift loses nothing. -/
theorem crcShift_eq_zero (hpoly : poly.msb = true) {x : BitVec w} (h : crcShift poly x = 0#w) : x = 0#w := by
  have hlow : x.getLsbD 0 = false := by
    have htop : (crcShift poly x).msb = false := by rw [h, BitVec.msb_zero]
    by_contra hset
    rw [Bool.not_eq_false] at hset
    rw [crcShift, hset, if_pos rfl, BitVec.msb_xor, hpoly, BitVec.msb_ushiftRight] at htop
    simp at htop
  rw [crcShift, hlow, if_neg (by simp), BitVec.xor_zero] at h
  have hdown : x.toNat / 2 = 0 := by
    simpa [Nat.shiftRight_eq_div_pow] using congrArg BitVec.toNat h
  have heven : x.toNat % 2 = 0 := by
    rw [BitVec.getLsbD, Nat.testBit_zero] at hlow
    simpa using hlow
  refine BitVec.eq_of_toNat_eq ?_
  rw [BitVec.toNat_zero]
  omega

theorem crcShifts_eq_zero (hpoly : poly.msb = true) (n : Nat) {x : BitVec w}
    (h : crcShifts poly n x = 0#w) : x = 0#w := by
  induction n generalizing x with
  | zero => exact h
  | succ n ih => exact crcShift_eq_zero poly hpoly (ih h)

theorem crcShifts_injective (hpoly : poly.msb = true) (n : Nat) : Function.Injective (crcShifts poly n) := by
  intro x y h
  have hzero : crcShifts poly n (x ^^^ y) = 0#w := by rw [crcShifts_xor, h, BitVec.xor_self]
  exact BitVec.xor_eq_zero_iff.mp (crcShifts_eq_zero poly hpoly n hzero)

theorem crcBytes_append (x : BitVec w) (first second : Bytes) :
    crcBytes poly x (first ++ second) = crcBytes poly (crcBytes poly x first) second :=
  List.foldl_append

theorem crcByte_injective (hpoly : poly.msb = true) (byte : UInt8) :
    Function.Injective fun x => crcByte poly x byte := by
  intro x y h
  exact (BitVec.xor_left_inj _).mp (crcShifts_injective poly hpoly 8 h)

/-- Two registers that differ still differ after any common bytes. -/
theorem crcBytes_injective (hpoly : poly.msb = true) (bytes : Bytes) :
    Function.Injective fun x => crcBytes poly x bytes := by
  induction bytes with
  | nil => exact fun _ _ h => h
  | cons byte bytes ih => exact fun x y h => crcByte_injective poly hpoly byte (ih h)

/-- A low byte and what stands above it, added without a carry. -/
theorem ofNat_low_byte {low : Nat} (hlow : low < 2 ^ 8) (high : Nat) :
    BitVec.ofNat w low ^^^ BitVec.ofNat w high <<< 8 = BitVec.ofNat w (2 ^ 8 * high + low) := by
  refine BitVec.eq_of_getLsbD_eq fun i hi => ?_
  rw [BitVec.getLsbD_xor, BitVec.getLsbD_shiftLeft, BitVec.getLsbD_ofNat, BitVec.getLsbD_ofNat,
    BitVec.getLsbD_ofNat, Nat.testBit_two_pow_mul_add _ hlow]
  by_cases hbit : i < 8
  · simp [hi, hbit]
  · have hclear : low.testBit i = false :=
      Nat.testBit_lt_two_pow (hlow.trans_le (Nat.pow_le_pow_right (by omega) (by omega)))
    have hbelow : i - 8 < w := by omega
    simp [hi, hbit, hclear, hbelow]

/-- Bytes that fit the register are added to it all at once. -/
theorem crcBytes_eq_crcShifts {bytes : Bytes} (hfits : 8 * bytes.length ≤ w) (x : BitVec w) :
    crcBytes poly x bytes = crcShifts poly (8 * bytes.length) (x ^^^ BitVec.ofNat w (leNat bytes)) := by
  induction bytes generalizing x with
  | nil => simp [crcBytes, crcShifts, leNat]
  | cons byte bytes ih =>
    rw [List.length_cons, Nat.mul_succ] at hfits
    have hlow : leNat bytes < 2 ^ w :=
      (leNat_lt bytes).trans_le (Nat.pow_le_pow_right (by omega) (by omega))
    have hmoved : leNat bytes * 2 ^ 8 < 2 ^ w := by
      calc leNat bytes * 2 ^ 8 < 2 ^ (8 * bytes.length) * 2 ^ 8 :=
            Nat.mul_lt_mul_of_pos_right (leNat_lt bytes) (by omega)
        _ = 2 ^ (8 * bytes.length + 8) := (Nat.pow_add ..).symm
        _ ≤ 2 ^ w := Nat.pow_le_pow_right (by omega) hfits
    have hrest : crcShifts poly 8 (BitVec.ofNat w (leNat bytes) <<< 8) = BitVec.ofNat w (leNat bytes) := by
      refine crcShifts_shiftLeft poly ?_
      rwa [BitVec.toNat_ofNat, Nat.mod_eq_of_lt hlow]
    have hjoined : BitVec.ofNat w byte.toNat ^^^ BitVec.ofNat w (leNat bytes) <<< 8 =
        BitVec.ofNat w (leNat (byte :: bytes)) := by
      rw [ofNat_low_byte byte.toNat_lt, leNat, Nat.add_comm]
      rfl
    calc crcBytes poly x (byte :: bytes)
        = crcBytes poly (crcByte poly x byte) bytes := rfl
      _ = crcShifts poly (8 * bytes.length) (crcByte poly x byte ^^^ BitVec.ofNat w (leNat bytes)) :=
        ih (by omega) _
      _ = crcShifts poly (8 * bytes.length) (crcShifts poly 8
            (x ^^^ BitVec.ofNat w byte.toNat ^^^ BitVec.ofNat w (leNat bytes) <<< 8)) := by
        rw [crcShifts_xor poly 8, hrest, crcByte]
      _ = crcShifts poly (8 * (byte :: bytes).length) (x ^^^ BitVec.ofNat w (leNat (byte :: bytes))) := by
        rw [BitVec.xor_assoc, hjoined, ← crcShifts_add, Nat.add_comm, List.length_cons, Nat.mul_succ]

/-- Different strings that fit the register leave different registers. -/
theorem crcBytes_ne (hpoly : poly.msb = true) {first second : Bytes} (hlength : first.length = second.length)
    (hfits : 8 * first.length ≤ w) (hne : first ≠ second) (x : BitVec w) :
    crcBytes poly x first ≠ crcBytes poly x second := by
  intro h
  rw [crcBytes_eq_crcShifts poly hfits, crcBytes_eq_crcShifts poly (hlength ▸ hfits), hlength] at h
  have hsame := (BitVec.xor_right_inj x).mp (crcShifts_injective poly hpoly _ h)
  have hfirst : leNat first < 2 ^ w := (leNat_lt first).trans_le (Nat.pow_le_pow_right (by omega) hfits)
  have hsecond : leNat second < 2 ^ w :=
    (leNat_lt second).trans_le (Nat.pow_le_pow_right (by omega) (hlength ▸ hfits))
  have hvalue := congrArg BitVec.toNat hsame
  rw [BitVec.toNat_ofNat, BitVec.toNat_ofNat, Nat.mod_eq_of_lt hfirst, Nat.mod_eq_of_lt hsecond] at hvalue
  exact hne (leNat_injective hlength hvalue)

/-- A burst no longer than the register changes the checksum, whatever stands
around it. -/
theorem crcBytes_burst (hpoly : poly.msb = true) {first second : Bytes}
    (hlength : first.length = second.length) (hfits : 8 * first.length ≤ w) (hne : first ≠ second)
    (x : BitVec w) (before after : Bytes) :
    crcBytes poly x (before ++ (first ++ after)) ≠ crcBytes poly x (before ++ (second ++ after)) := by
  rw [crcBytes_append, crcBytes_append, crcBytes_append, crcBytes_append]
  exact (crcBytes_injective poly hpoly after).ne (crcBytes_ne poly hpoly hlength hfits hne _)

end NovaKV.Lib
