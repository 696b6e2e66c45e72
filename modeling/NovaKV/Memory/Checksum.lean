import NovaKV.Lib.Crc
import NovaKV.Memory.WalHandler

open NovaKV.Lib

namespace NovaKV

/-- The polynomial of the checksum, in reflected order. -/
def crc_polynomial : BitVec 32 := 0xEDB88320#32

theorem crc_bit (crc : UInt32) :
    ((crc >>> 1) ^^^ (if crc &&& 1 = 1 then 0xEDB88320 else 0)).toBitVec =
      crcShift crc_polynomial crc.toBitVec := by
  have hlow : crc &&& 1 = 1 ↔ crc.toBitVec.getLsbD 0 = true := by
    rw [← UInt32.toNat_inj, UInt32.toNat_and, BitVec.getLsbD, Nat.testBit_zero]
    simp [Nat.and_one_is_mod]
  rw [crcShift, UInt32.toBitVec_xor, UInt32.toBitVec_shiftRight]
  by_cases hset : crc &&& 1 = 1
  · rw [if_pos hset, if_pos (hlow.mp hset)]
    rfl
  · rw [if_neg hset, if_neg fun h => hset (hlow.mpr h)]
    rfl

/-- A table entry is eight shifts of its index. -/
theorem crc_table_toBitVec (i : UInt32) :
    (crc_table i).toBitVec = crcShifts crc_polynomial 8 i.toBitVec := by
  have hfold : ∀ (steps : List Nat) (crc : UInt32),
      (steps.foldl (fun (crc : UInt32) _ => (crc >>> 1) ^^^ (if crc &&& 1 = 1 then 0xEDB88320 else 0)) crc).toBitVec =
        crcShifts crc_polynomial steps.length crc.toBitVec := by
    intro steps
    induction steps with
    | nil => exact fun _ => rfl
    | cons step steps ih =>
      intro crc
      rw [List.foldl_cons, ih, crc_bit, List.length_cons, crcShifts]
  exact hfold (List.range 8) i

/-- The table lookup of a step shifts out a byte. -/
theorem crc_step_toBitVec (crc : UInt32) (byte : UInt8) :
    ((crc >>> 8) ^^^ crc_table ((crc ^^^ byte.toUInt32) &&& 0xFF)).toBitVec =
      crcByte crc_polynomial crc.toBitVec byte := by
  have hbyte := byte.toNat_lt
  have hwide : byte.toUInt32.toBitVec = BitVec.ofNat 32 byte.toNat := by
    refine BitVec.eq_of_toNat_eq ?_
    simp
  have hhigh : (crc.toBitVec ^^^ BitVec.ofNat 32 byte.toNat) >>> 8 = crc.toBitVec >>> 8 := by
    have hgone : BitVec.ofNat 32 byte.toNat >>> 8 = 0#32 := by
      refine BitVec.eq_of_toNat_eq ?_
      rw [BitVec.toNat_ushiftRight, BitVec.toNat_ofNat, Nat.shiftRight_eq_div_pow]
      simp only [BitVec.toNat_ofNat]
      omega
    rw [BitVec.ushiftRight_xor_distrib, hgone, BitVec.xor_zero]
  have hsplit : ∀ x : BitVec 32, x = (x >>> 8) <<< 8 ^^^ (x &&& 0xFF#32) := by
    intro x
    have hmask : x &&& 0xFF#32 = BitVec.ofNat 32 (x.toNat % 2 ^ 8) := by
      refine BitVec.eq_of_toNat_eq ?_
      have hsmall : x.toNat % 2 ^ 8 < 2 ^ 32 := (Nat.mod_lt _ (by omega)).trans (by omega)
      rw [BitVec.toNat_and, BitVec.toNat_ofNat, BitVec.toNat_ofNat, Nat.mod_eq_of_lt hsmall]
      exact Nat.and_two_pow_sub_one_eq_mod _ 8
    have hdown : x >>> 8 = BitVec.ofNat 32 (x.toNat / 2 ^ 8) := by
      refine BitVec.eq_of_toNat_eq ?_
      have hsmall : x.toNat / 2 ^ 8 < 2 ^ 32 := (Nat.div_le_self _ _).trans_lt x.isLt
      rw [BitVec.toNat_ushiftRight, BitVec.toNat_ofNat, Nat.mod_eq_of_lt hsmall, Nat.shiftRight_eq_div_pow]
    rw [hmask, hdown, BitVec.xor_comm, ofNat_low_byte (Nat.mod_lt _ (by omega)), Nat.div_add_mod, BitVec.ofNat_toNat,
      BitVec.setWidth_eq]
  rw [UInt32.toBitVec_xor, crc_table_toBitVec, UInt32.toBitVec_and, UInt32.toBitVec_xor, hwide, crcByte]
  conv_rhs => rw [hsplit (crc.toBitVec ^^^ BitVec.ofNat 32 byte.toNat)]
  rw [crcShifts_xor, hhigh, crcShifts_shiftLeft]
  · rfl
  · have hcrc := crc.toBitVec.isLt
    rw [BitVec.toNat_ushiftRight, Nat.shiftRight_eq_div_pow]
    omega

theorem calculate_crc32_toBitVec (data : Bytes) :
    (calculate_crc32 data).toBitVec =
      crcBytes crc_polynomial 0xFFFFFFFF#32 data ^^^ 0xFFFFFFFF#32 := by
  have hfold : ∀ (data : Bytes) (crc : UInt32),
      (data.foldl (fun (crc : UInt32) byte =>
        (crc >>> 8) ^^^ crc_table ((crc ^^^ byte.toUInt32) &&& 0xFF)) crc).toBitVec =
        crcBytes crc_polynomial crc.toBitVec data := by
    intro data
    induction data with
    | nil => exact fun _ => rfl
    | cons byte data ih =>
      intro crc
      rw [List.foldl_cons, ih, crc_step_toBitVec]
      rfl
  rw [calculate_crc32, UInt32.toBitVec_xor, hfold]
  rfl

/-- A burst of at most four bytes changes the checksum. -/
theorem calculate_crc32_burst {first second : Bytes} (hlength : first.length = second.length)
    (hshort : first.length ≤ 4) (hne : first ≠ second) (before after : Bytes) :
    calculate_crc32 (before ++ (first ++ after)) ≠ calculate_crc32 (before ++ (second ++ after)) := by
  intro h
  have hbits := congrArg UInt32.toBitVec h
  rw [calculate_crc32_toBitVec, calculate_crc32_toBitVec, BitVec.xor_left_inj] at hbits
  exact crcBytes_burst crc_polynomial (by decide) hlength (by omega) hne _ before after hbits

end NovaKV
