import Mathlib.Data.List.FinRange
import NetLabs.Lib.ShiftRegister
import NetLabs.Rtp.Wire

/-!
# The checksum is CRC-32

`crc32` of `util.c` starts from a zero register and looks up table entries that
are built with the tests of the feedback bit the other way round.  The standard
starts from a register of ones and complements the result.  The two registers are
complements of each other all the way.

* `standardCrc32` is the standard, bit by bit.
* `crc32Static` is the function of the source, whose table is built in the
  first call.  `checksumCalls_eq` says that every call returns the standard
  checksum.
* `toBitVec_computeChecksum` is the form that the shift register library
  works with.
-/

namespace NetLabs.Rtp

open NetLabs.Lib

/-! ## The standard -/

/-- `0xEDB88320`: the polynomial of CRC-32, reflected. -/
def crc32Poly : UInt32 := 0xEDB88320

/-- One bit of the standard algorithm. -/
def standardRound (r : UInt32) : UInt32 :=
  if r &&& 1 ≠ 0 then (r >>> 1) ^^^ crc32Poly else r >>> 1

/-- The standard CRC-32: all ones at the start, the bytes bit by bit, and the
complement at the end. -/
def standardCrc32 (bytes : List UInt8) : UInt32 :=
  ~~~ bytes.foldl (fun r byte => standardRound^[8] (r ^^^ byte.toUInt32)) 0xFFFFFFFF

/-! ## The table -/

/-- `static uint32_t table[0x100]` -/
abbrev Crc32Table := Fin 256 → UInt32

/-- What a static array holds when the program starts. -/
def Crc32Table.zero : Crc32Table := fun _ => 0

/-- The loop that fills the table. -/
def Crc32Table.build (table : Crc32Table) : Crc32Table :=
  (List.finRange 256).foldl
    (fun table i => Function.update table i (crc32ForByte (.ofNat i))) table

/-- `crc32` with its table: the register and the table afterwards. -/
def crc32Static (table : Crc32Table) (data : List UInt8) (crc : UInt32) : UInt32 × Crc32Table :=
  let table := if table 0 = 0 then table.build else table
  (data.foldl (fun crc byte => table (crc.toUInt8 ^^^ byte).toFin ^^^ (crc >>> 8)) crc, table)

/-- The results of successive calls of `compute_checksum`. -/
def checksumCalls (table : Crc32Table) : List (List UInt8) → List UInt32
  | [] => []
  | bytes :: calls =>
    let (crc, table) := crc32Static table bytes 0
    crc :: checksumCalls table calls

/-- The table that has been filled. -/
def Crc32Table.full : Crc32Table := fun i => crc32ForByte (.ofNat i)

/-- Updates at the elements of a list. -/
theorem foldl_update {ι α : Type*} [DecidableEq ι] (f : ι → α) (l : List ι) (t : ι → α) (j : ι) :
    l.foldl (fun t i => Function.update t i (f i)) t j = if j ∈ l then f j else t j := by
  induction l generalizing t with
  | nil => simp
  | cons i l ih =>
    rw [List.foldl_cons, ih]
    by_cases hmem : j ∈ l
    · simp [hmem]
    · by_cases heq : j = i
      · simp [heq]
      · simp [hmem, heq]

theorem build_eq_full (table : Crc32Table) : table.build = .full := by
  funext j
  rw [Crc32Table.build, foldl_update (fun i : Fin 256 => crc32ForByte (.ofNat i)),
    if_pos (List.mem_finRange j)]
  rfl

theorem full_zero_ne : Crc32Table.full 0 ≠ 0 := by
  decide

theorem full_toFin (byte : UInt8) : Crc32Table.full byte.toFin = crc32ForByte byte.toUInt32 := by
  have hindex : UInt32.ofNat byte.toFin = byte.toUInt32 := by
    have hlt := byte.toNat_lt
    rw [← UInt32.toNat_inj, UInt8.toNat_toUInt32, UInt32.toNat_ofNat_of_lt']
    · rfl
    · exact lt_trans byte.toFin.isLt (by decide)
  rw [Crc32Table.full, hindex]

/-- With the empty and with the full table, the register is that of `crc32`. -/
theorem crc32Static_eq {table : Crc32Table} (h : table = .zero ∨ table = .full)
    (data : List UInt8) (crc : UInt32) : crc32Static table data crc = (crc32 data crc, .full) := by
  have hzero : Crc32Table.zero 0 = 0 := rfl
  have htable : (if table 0 = 0 then table.build else table) = .full := by
    rcases h with rfl | rfl
    · rw [if_pos hzero, build_eq_full]
    · rw [if_neg full_zero_ne]
  simp only [crc32Static, htable, full_toFin, crc32]

/-! ## The two registers -/

/-- The polynomial as the shift register library has it. -/
def crc32PolyBits : BitVec 32 := crc32Poly.toBitVec

theorem crc32PolyBits_msb : crc32PolyBits.msb = true := by
  decide

theorem and_one_ne_zero_iff (r : UInt32) : r &&& 1 ≠ 0 ↔ r.toBitVec.getLsbD 0 = true := by
  rw [ne_eq, ← UInt32.toNat_inj, UInt32.toNat_and, show (1 : UInt32).toNat = 1 from rfl,
    show (0 : UInt32).toNat = 0 from rfl, Nat.and_one_is_mod]
  show _ ↔ r.toNat.testBit 0 = true
  rw [Nat.testBit_zero, decide_eq_true_iff]
  omega

theorem toBitVec_standardRound (r : UInt32) :
    (standardRound r).toBitVec = shiftOut crc32PolyBits r.toBitVec := by
  have hshift : (r >>> 1).toBitVec = r.toBitVec >>> 1 := rfl
  unfold standardRound shiftOut
  by_cases hlow : r &&& 1 ≠ 0
  · rw [if_pos hlow, if_pos ((and_one_ne_zero_iff r).mp hlow), UInt32.toBitVec_xor, hshift,
      BitVec.xor_comm]
    rfl
  · rw [if_neg hlow, if_neg (mt (and_one_ne_zero_iff r).mpr hlow), hshift]
    simp

/-- One round of a table entry is a shift, with the polynomial for the other
bit. -/
theorem toBitVec_crc32Round (r : UInt32) :
    (crc32Round r).toBitVec = shiftOut crc32PolyBits r.toBitVec ^^^ crc32PolyBits := by
  have hshift : (r >>> 1).toBitVec = r.toBitVec >>> 1 := rfl
  unfold crc32Round shiftOut
  by_cases hlow : r &&& 1 ≠ 0
  · rw [if_pos hlow, if_pos ((and_one_ne_zero_iff r).mp hlow), UInt32.toBitVec_xor, hshift,
      BitVec.xor_comm crc32PolyBits, BitVec.xor_assoc, BitVec.xor_self]
    simp
  · rw [if_neg hlow, if_neg (mt (and_one_ne_zero_iff r).mpr hlow), UInt32.toBitVec_xor, hshift,
      BitVec.xor_comm]
    simp [crc32PolyBits, crc32Poly]

theorem toBitVec_iterate_standardRound (n : Nat) (r : UInt32) :
    (standardRound^[n] r).toBitVec = (shiftOut crc32PolyBits)^[n] r.toBitVec := by
  induction n generalizing r with
  | zero => rfl
  | succ n ih => rw [Function.iterate_succ_apply, ih, toBitVec_standardRound,
      Function.iterate_succ_apply]

/-- Several rounds differ from as many shifts by what they make of zero. -/
theorem toBitVec_iterate_crc32Round (n : Nat) (r : UInt32) :
    (crc32Round^[n] r).toBitVec =
      (shiftOut crc32PolyBits)^[n] r.toBitVec ^^^ (crc32Round^[n] 0).toBitVec := by
  induction n generalizing r with
  | zero => simp
  | succ n ih =>
    have hzero : (crc32Round^[n + 1] 0).toBitVec =
        (shiftOut crc32PolyBits)^[n] crc32PolyBits ^^^ (crc32Round^[n] 0).toBitVec := by
      rw [Function.iterate_succ_apply, ih, toBitVec_crc32Round]
      simp
    rw [hzero, Function.iterate_succ_apply, ih, toBitVec_crc32Round, iterate_shiftOut_xor,
      BitVec.xor_assoc, Function.iterate_succ_apply]

/-- A table entry is eight shifts, but for a constant. -/
theorem toBitVec_crc32ForByte (r : UInt32) :
    (crc32ForByte r).toBitVec = (shiftOut crc32PolyBits)^[8] r.toBitVec ^^^
      ((shiftOut crc32PolyBits)^[8] (BitVec.allOnes 32) ^^^ BitVec.allOnes 32) := by
  have hconstant : (crc32Round^[8] 0).toBitVec ^^^ (0xFF000000 : UInt32).toBitVec =
      (shiftOut crc32PolyBits)^[8] (BitVec.allOnes 32) ^^^ BitVec.allOnes 32 := by
    decide
  rw [crc32ForByte, UInt32.toBitVec_xor, toBitVec_iterate_crc32Round, BitVec.xor_assoc, hconstant]

/-- One byte: the register of the source is the complement of that of the
standard before and after it. -/
theorem toBitVec_crc32_step (crc : UInt32) (byte : UInt8) :
    (crc32ForByte (crc.toUInt8 ^^^ byte).toUInt32 ^^^ (crc >>> 8)).toBitVec =
      ~~~ feedBits crc32PolyBits (~~~ crc.toBitVec) (byteBits byte) := by
  let fed := crc.toBitVec ^^^ byte.toBitVec.setWidth 32
  have hindex : (crc.toUInt8 ^^^ byte).toUInt32.toBitVec = (fed.setWidth 8).setWidth 32 := by
    have hback : (byte.toBitVec.setWidth 32).setWidth 8 = byte.toBitVec := by
      rw [BitVec.setWidth_setWidth_of_le _ (by decide), BitVec.setWidth_eq]
    have hfed : fed.setWidth 8 = crc.toBitVec.setWidth 8 ^^^ byte.toBitVec := by
      show (crc.toBitVec ^^^ byte.toBitVec.setWidth 32).setWidth 8 = _
      rw [BitVec.setWidth_xor, hback]
    rw [UInt8.toBitVec_toUInt32, UInt8.toBitVec_xor, UInt32.toBitVec_toUInt8, hfed]
  have hmoved : fed >>> 8 = (crc >>> 8).toBitVec := by
    apply BitVec.eq_of_getLsbD_eq
    intro i hi
    simp [fed]
  have hstart : ~~~ crc.toBitVec ^^^ byte.toBitVec.setWidth 32 = fed ^^^ BitVec.allOnes 32 := by
    show _ = crc.toBitVec ^^^ byte.toBitVec.setWidth 32 ^^^ BitVec.allOnes 32
    rw [← BitVec.xor_allOnes]
    ac_rfl
  rw [UInt32.toBitVec_xor, toBitVec_crc32ForByte, hindex, ← hmoved, feedBits_byte (by decide),
    hstart, iterate_shiftOut_xor, iterate_shiftOut_eq 8 fed, ← BitVec.xor_allOnes]
  ac_rfl

/-- The register of `crc32` and the shift register. -/
theorem toBitVec_crc32 (data : List UInt8) (crc : UInt32) :
    (crc32 data crc).toBitVec = ~~~ feedBits crc32PolyBits (~~~ crc.toBitVec) (bitsOf data) := by
  induction data generalizing crc with
  | nil => simp [crc32, bitsOf, feedBits]
  | cons byte data ih =>
    have hstep := toBitVec_crc32_step crc byte
    show (crc32 data (crc32ForByte (crc.toUInt8 ^^^ byte).toUInt32 ^^^ (crc >>> 8))).toBitVec = _
    rw [ih, hstep, BitVec.not_not, bitsOf, bitsOf, List.flatMap_cons, feedBits_append]

theorem toBitVec_computeChecksum (bytes : List UInt8) :
    (computeChecksum bytes).toBitVec =
      ~~~ feedBits crc32PolyBits (BitVec.allOnes 32) (bitsOf bytes) := by
  have hones : ~~~ (0 : UInt32).toBitVec = BitVec.allOnes 32 := by decide
  rw [computeChecksum, toBitVec_crc32, hones]

theorem toBitVec_standard (bytes : List UInt8) (r : UInt32) :
    (bytes.foldl (fun r byte => standardRound^[8] (r ^^^ byte.toUInt32)) r).toBitVec =
      feedBits crc32PolyBits r.toBitVec (bitsOf bytes) := by
  induction bytes generalizing r with
  | nil => rfl
  | cons byte bytes ih =>
    rw [List.foldl_cons, ih, toBitVec_iterate_standardRound, bitsOf, bitsOf, List.flatMap_cons,
      feedBits_append, feedBits_byte (by decide)]
    rfl

/-- The checksum of the source is the standard one. -/
theorem computeChecksum_eq_standardCrc32 (bytes : List UInt8) :
    computeChecksum bytes = standardCrc32 bytes := by
  apply UInt32.toBitVec_inj.mp
  rw [toBitVec_computeChecksum, standardCrc32, UInt32.toBitVec_not, toBitVec_standard]
  rfl

/-- **The checksum is CRC-32**, in the first call, which builds the table, and in
every later one. -/
theorem checksumCalls_eq (calls : List (List UInt8)) :
    checksumCalls .zero calls = calls.map standardCrc32 := by
  have hcalls : ∀ table, table = .zero ∨ table = .full →
      checksumCalls table calls = calls.map standardCrc32 := by
    induction calls with
    | nil => exact fun _ _ => rfl
    | cons bytes calls ih =>
      intro table htable
      rw [checksumCalls, crc32Static_eq htable, List.map_cons,
        ← computeChecksum_eq_standardCrc32]
      show computeChecksum bytes :: checksumCalls .full calls = _
      rw [ih .full (.inr rfl)]
  exact hcalls .zero (.inl rfl)

/-- The check value of CRC-32, the checksum of the digits 1 to 9. -/
example : standardCrc32 [0x31, 0x32, 0x33, 0x34, 0x35, 0x36, 0x37, 0x38, 0x39] = 0xCBF43926 := by
  decide +kernel

end NetLabs.Rtp
