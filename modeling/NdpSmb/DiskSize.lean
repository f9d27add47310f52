import NdpSmb.Smbwrp

/-!
The disk size as `smbwrpDskattr` tells it.
-/

namespace NdpSmb

open Interaction

/-! A size counted in blocks, told in other units. -/

/-- The units hold no more than the blocks, and fall short by less than the larger of the two. -/
def Approximates (units unit blocks block : Nat) : Prop :=
  units * unit ≤ blocks * block ∧ blocks * block < units * unit + max block unit

theorem approximates_same {blocks block : Nat} (blockPositive : 0 < block) :
    Approximates blocks block blocks block := by
  constructor
  · apply Nat.le_refl
  · omega

theorem approximates_split {blocks block parts : Nat} (blockPositive : 0 < block)
    (divides : parts ∣ block) : Approximates (blocks * parts) (block / parts) blocks block := by
  have sameSize : blocks * parts * (block / parts) = blocks * block := by
    rw [Nat.mul_assoc, Nat.mul_div_cancel' divides]
  constructor
  · omega
  · omega

theorem approximates_scaled {blocks block scale : Nat} (blockPositive : 0 < block)
    (scalePositive : 0 < scale) : Approximates (blocks / scale) (block * scale) blocks block := by
  have sameProduct : blocks / scale * (block * scale) = scale * (blocks / scale) * block := by
    ac_rfl
  have divided := Nat.div_add_mod blocks scale
  have remainder := Nat.mod_lt blocks scalePositive
  constructor
  · rw [sameProduct]
    apply Nat.mul_le_mul_right
    omega
  · have short : blocks * block < scale * (blocks / scale) * block + block * scale := by
      calc blocks * block
          = scale * (blocks / scale) * block + blocks % scale * block := by
            rw [← Nat.add_mul, divided]
        _ < scale * (blocks / scale) * block + scale * block := by
            apply Nat.add_lt_add_left
            exact Nat.mul_lt_mul_of_pos_right remainder blockPositive
        _ = scale * (blocks / scale) * block + block * scale := by
            rw [Nat.mul_comm scale block]
    rw [sameProduct]
    omega

/-- A count divided by its own quotient is in the range again exactly when nothing is left over
that the quotient does not cover. -/
theorem scaled_le_iff {blocks largest : Nat} (tooMany : largest < blocks) (largestPositive : 0 < largest) :
    blocks / (blocks / largest) ≤ largest ↔ blocks % largest < blocks / largest := by
  have scalePositive : 0 < blocks / largest := Nat.div_pos (by omega) largestPositive
  have divided := Nat.div_add_mod blocks largest
  rw [← Nat.lt_succ_iff, Nat.div_lt_iff_lt_mul scalePositive, Nat.succ_mul]
  omega

/-! The counts before they are stored. -/

def scaleOf (total : UInt64) : UInt64 :=
  total / 4294967295

def computedSize (bsize total avail : UInt64) : UInt64 × UInt64 × UInt64 :=
  if bsize ≥ 65536 then (total * 1024, avail * 1024, bsize / 1024)
  else if total > 4294967295 then
    (total / scaleOf total, avail / scaleOf total, bsize * scaleOf total)
  else (total, avail, bsize)

def storedSize (computed : UInt64 × UInt64 × UInt64) : Ndfsallocate :=
  ⟨1, computed.1.toUInt32, computed.2.1.toUInt32, computed.2.2.toUInt16⟩

theorem run_smbwrpDskattr {cli : Handle} {bsize total avail : UInt64}
    {trace : List CallEvent} {outcome : Option (Int × Option Ndfsallocate)}
    (scaleFits : scaleOf total < 0x80000000) :
    Run (smbwrpDskattr (some cli))
        (⟨.request cli .cliDiskSize, some (bsize, total, avail)⟩ :: trace) outcome ↔
      trace = [] ∧ outcome = some (0, some (storedSize (computedSize bsize total avail))) := by
  have notFaulting : ¬ total / 4294967295 ≥ 0x80000000 := by
    simpa [scaleOf] using scaleFits
  unfold smbwrpDskattr
  rw [run_perform_bind_iff]
  by_cases large : bsize ≥ 65536
  · simp [computedSize, storedSize, large]
  · by_cases overflows : total > 4294967295
    · simp [computedSize, storedSize, large, overflows, notFaulting, scaleOf]
    · simp [computedSize, storedSize, large, overflows]

/-- The answer is a size that the record can hold, and the record holds it. -/
structure ConvertsSize (bsize total avail : UInt64) (pfsa : Ndfsallocate) : Prop where
  divisor : bsize < 65536 → 4294967295 < total → scaleOf total ≠ 0
  unitsStored : pfsa.cUnit.toNat = (computedSize bsize total avail).1.toNat
  availStored : pfsa.cUnitAvail.toNat = (computedSize bsize total avail).2.1.toNat
  sectorStored : pfsa.cbSector.toNat = (computedSize bsize total avail).2.2.toNat
  sectorPositive : 1 ≤ pfsa.cbSector
  availWithin : pfsa.cUnitAvail ≤ pfsa.cUnit
  size : Approximates pfsa.cUnit.toNat pfsa.cbSector.toNat total.toNat bsize.toNat
  sizeAvail : Approximates pfsa.cUnitAvail.toNat pfsa.cbSector.toNat avail.toNat bsize.toNat

/-- The blocks of a large cluster size count less than 4 Mi, those of a smaller one fit their
field, or do so once divided by the scale. -/
def CountFits (bsize total : UInt64) : Prop :=
  if bsize ≥ 65536 then total < 4194304
  else total ≤ 4294967295 ∨ total % 4294967295 < scaleOf total

instance (bsize total : UInt64) : Decidable (CountFits bsize total) := by
  unfold CountFits
  infer_instance

structure SizeComputed (bsize total avail : UInt64) (computed : UInt64 × UInt64 × UInt64) :
    Prop where
  divisor : bsize < 65536 → 4294967295 < total → scaleOf total ≠ 0
  sectorFits : computed.2.2.toNat < 2 ^ 16
  sectorPositive : 0 < computed.2.2.toNat
  availWithin : computed.2.1.toNat ≤ computed.1.toNat
  size : Approximates computed.1.toNat computed.2.2.toNat total.toNat bsize.toNat
  sizeAvail : Approximates computed.2.1.toNat computed.2.2.toNat avail.toNat bsize.toNat
  unitsFit : computed.1.toNat < 2 ^ 32 ↔ CountFits bsize total

def BlockSize (bsize : UInt64) : Prop :=
  ∃ exponent, 9 ≤ exponent ∧ exponent ≤ 20 ∧ bsize.toNat = 2 ^ exponent

section Domain

variable {bsize total avail : UInt64}

theorem blockSize_bounds (blockSize : BlockSize bsize) :
    512 ≤ bsize.toNat ∧ bsize.toNat ≤ 1048576 := by
  obtain ⟨exponent, atLeast, atMost, power⟩ := blockSize
  rw [power]
  have lower : 2 ^ 9 ≤ 2 ^ exponent := Nat.pow_le_pow_right (by decide) atLeast
  have upper : 2 ^ exponent ≤ 2 ^ 20 := Nat.pow_le_pow_right (by decide) atMost
  omega

theorem blockSize_divides (blockSize : BlockSize bsize) (large : 65536 ≤ bsize.toNat) :
    1024 ∣ bsize.toNat := by
  obtain ⟨exponent, atLeast, atMost, power⟩ := blockSize
  have enough : 10 ≤ exponent := by
    by_contra small
    have below : 2 ^ exponent < 2 ^ 10 := Nat.pow_lt_pow_right (by decide) (by omega)
    omega
  rw [power]
  exact Nat.pow_dvd_pow 2 enough

theorem sizeComputed_large (blockSize : BlockSize bsize) (availIn : avail ≤ total)
    (sizeFits : total.toNat * bsize.toNat < 2 ^ 32 * 2 ^ 15) (large : bsize ≥ 65536) :
    SizeComputed bsize total avail (total * 1024, avail * 1024, bsize / 1024) := by
  have largeBlocks : 65536 ≤ bsize.toNat := by
    simpa [UInt64.le_iff_toNat_le] using large
  have fewer : avail.toNat ≤ total.toNat := UInt64.le_iff_toNat_le.mp availIn
  have fewBlocks : total.toNat < 2 ^ 31 := by
    have product := Nat.mul_le_mul_left total.toNat largeBlocks
    omega
  have bounds := blockSize_bounds blockSize
  have unitsValue : (total * 1024).toNat = total.toNat * 1024 := by
    rw [UInt64.toNat_mul]
    exact Nat.mod_eq_of_lt (by simp; omega)
  have availValue : (avail * 1024).toNat = avail.toNat * 1024 := by
    rw [UInt64.toNat_mul]
    exact Nat.mod_eq_of_lt (by simp; omega)
  have sectorValue : (bsize / 1024).toNat = bsize.toNat / 1024 := by
    simp
  constructor
  case divisor =>
    intro small
    have contradiction : ¬ bsize < 65536 := by simpa using large
    exact absurd small contradiction
  case sectorFits =>
    rw [sectorValue]
    omega
  case sectorPositive =>
    rw [sectorValue]
    omega
  case availWithin =>
    rw [unitsValue, availValue]
    omega
  case size =>
    rw [unitsValue, sectorValue]
    exact approximates_split (by omega) (blockSize_divides blockSize largeBlocks)
  case sizeAvail =>
    rw [availValue, sectorValue]
    exact approximates_split (by omega) (blockSize_divides blockSize largeBlocks)
  case unitsFit =>
    rw [unitsValue]
    rw [CountFits, if_pos large, UInt64.lt_iff_toNat_lt]
    have limit : (4194304 : UInt64).toNat = 4194304 := rfl
    omega

theorem sizeComputed_scaled (blockSize : BlockSize bsize) (availIn : avail ≤ total)
    (sizeFits : total.toNat * bsize.toNat < 2 ^ 32 * 2 ^ 15) (small : ¬ bsize ≥ 65536)
    (overflows : total > 4294967295) :
    SizeComputed bsize total avail
      (total / scaleOf total, avail / scaleOf total, bsize * scaleOf total) := by
  have manyBlocks : 4294967295 < total.toNat := by
    simpa [UInt64.lt_iff_toNat_lt] using overflows
  have fewer : avail.toNat ≤ total.toNat := UInt64.le_iff_toNat_le.mp availIn
  have bounds := blockSize_bounds blockSize
  have scaleValue : (scaleOf total).toNat = total.toNat / 4294967295 := by
    simp [scaleOf]
  have scalePositive : 0 < (scaleOf total).toNat := by
    rw [scaleValue]
    omega
  have sectorSmall : bsize.toNat * (scaleOf total).toNat < 2 ^ 16 := by
    have covered : 4294967295 * (scaleOf total).toNat ≤ total.toNat := by
      rw [scaleValue]
      exact Nat.mul_div_le total.toNat 4294967295
    have product := Nat.mul_le_mul_right bsize.toNat covered
    have reordered : 4294967295 * (scaleOf total).toNat * bsize.toNat =
        4294967295 * (bsize.toNat * (scaleOf total).toNat) := by
      ac_rfl
    omega
  have sectorValue : (bsize * scaleOf total).toNat = bsize.toNat * (scaleOf total).toNat := by
    rw [UInt64.toNat_mul]
    exact Nat.mod_eq_of_lt (by omega)
  constructor
  case divisor =>
    intro _ _ zero
    simp [zero] at scalePositive
  case sectorFits =>
    rw [sectorValue]
    exact sectorSmall
  case sectorPositive =>
    rw [sectorValue]
    exact Nat.mul_pos (by omega) scalePositive
  case availWithin =>
    simp only [UInt64.toNat_div]
    exact Nat.div_le_div_right fewer
  case size =>
    rw [sectorValue, UInt64.toNat_div]
    exact approximates_scaled (by omega) scalePositive
  case sizeAvail =>
    rw [sectorValue, UInt64.toNat_div]
    exact approximates_scaled (by omega) scalePositive
  case unitsFit =>
    have fits := scaled_le_iff manyBlocks (by decide)
    rw [CountFits, if_neg small, UInt64.lt_iff_toNat_lt, UInt64.le_iff_toNat_le,
      UInt64.toNat_div, UInt64.toNat_mod, scaleValue]
    have largest : (4294967295 : UInt64).toNat = 4294967295 := rfl
    rw [largest]
    omega

theorem sizeComputed_plain (blockSize : BlockSize bsize) (availIn : avail ≤ total)
    (small : ¬ bsize ≥ 65536) (countable : ¬ total > 4294967295) :
    SizeComputed bsize total avail (total, avail, bsize) := by
  have smallBlocks : bsize.toNat < 65536 := by
    simpa [UInt64.le_iff_toNat_le] using small
  have fewBlocks : total.toNat ≤ 4294967295 := by
    simpa [UInt64.lt_iff_toNat_lt] using countable
  have positive : 0 < bsize.toNat := by
    have bounds := blockSize_bounds blockSize
    omega
  constructor
  case divisor =>
    intro _ overflows
    exact absurd overflows countable
  case sectorFits => exact smallBlocks
  case sectorPositive => exact positive
  case availWithin => exact UInt64.le_iff_toNat_le.mp availIn
  case size => exact approximates_same positive
  case sizeAvail => exact approximates_same positive
  case unitsFit =>
    rw [CountFits, if_neg small, UInt64.le_iff_toNat_le]
    have largest : (4294967295 : UInt64).toNat = 4294967295 := rfl
    constructor
    · exact fun _ => .inl fewBlocks
    · intro _
      show total.toNat < 2 ^ 32
      omega

theorem sizeComputed (blockSize : BlockSize bsize) (availIn : avail ≤ total)
    (sizeFits : total.toNat * bsize.toNat < 2 ^ 32 * 2 ^ 15) :
    SizeComputed bsize total avail (computedSize bsize total avail) := by
  unfold computedSize
  split
  · apply sizeComputed_large
    all_goals assumption
  · split
    · apply sizeComputed_scaled
      all_goals assumption
    · apply sizeComputed_plain
      all_goals assumption

theorem SizeComputed.converts_iff {computed : UInt64 × UInt64 × UInt64}
    (sizes : SizeComputed bsize total avail computed)
    (whole : computed = computedSize bsize total avail) :
    ConvertsSize bsize total avail (storedSize computed) ↔ CountFits bsize total := by
  subst whole
  constructor
  · intro converts
    apply sizes.unitsFit.mp
    rw [← converts.unitsStored]
    exact UInt32.toNat_lt _
  · intro fits
    have unitsFit := sizes.unitsFit.mpr fits
    have availFits := Nat.lt_of_le_of_lt sizes.availWithin unitsFit
    have unitsStored : (storedSize (computedSize bsize total avail)).cUnit.toNat =
        (computedSize bsize total avail).1.toNat := by
      simpa [storedSize] using unitsFit
    have availStored : (storedSize (computedSize bsize total avail)).cUnitAvail.toNat =
        (computedSize bsize total avail).2.1.toNat := by
      simpa [storedSize] using availFits
    have sectorStored : (storedSize (computedSize bsize total avail)).cbSector.toNat =
        (computedSize bsize total avail).2.2.toNat := by
      simpa [storedSize] using sizes.sectorFits
    constructor
    case divisor => exact sizes.divisor
    case unitsStored => exact unitsStored
    case availStored => exact availStored
    case sectorStored => exact sectorStored
    case sectorPositive =>
      rw [UInt16.le_iff_toNat_le, sectorStored]
      exact sizes.sectorPositive
    case availWithin =>
      rw [UInt32.le_iff_toNat_le, unitsStored, availStored]
      exact sizes.availWithin
    case size =>
      rw [unitsStored, sectorStored]
      exact sizes.size
    case sizeAvail =>
      rw [availStored, sectorStored]
      exact sizes.sizeAvail

theorem scaleOf_lt (blockSize : BlockSize bsize)
    (sizeFits : total.toNat * bsize.toNat < 2 ^ 32 * 2 ^ 15) :
    scaleOf total < 0x80000000 := by
  have bounds := blockSize_bounds blockSize
  have product := Nat.mul_le_mul_left total.toNat bounds.1
  have limit : (0x80000000 : UInt64).toNat = 0x80000000 := rfl
  have divisor : (4294967295 : UInt64).toNat = 4294967295 := rfl
  rw [UInt64.lt_iff_toNat_lt, scaleOf, UInt64.toNat_div, limit, divisor]
  omega

end Domain

/-- The size of a disk is told without truncation exactly when the count of its blocks, scaled
as the source does it, fits its field. -/
theorem diskSize_converts_iff {cli : Handle} {bsize total avail : UInt64}
    (blockSize : BlockSize bsize) (availIn : avail ≤ total)
    (sizeFits : total.toNat * bsize.toNat < 2 ^ 32 * 2 ^ 15) :
    (∀ trace outcome,
      Run (smbwrpDskattr (some cli))
        (⟨.request cli .cliDiskSize, some (bsize, total, avail)⟩ :: trace) outcome →
      ∃ pfsa, outcome = some (0, some pfsa) ∧ ConvertsSize bsize total avail pfsa) ↔
    CountFits bsize total := by
  have converts := (sizeComputed blockSize availIn sizeFits).converts_iff rfl
  have answered := @run_smbwrpDskattr cli bsize total avail
  rw [← converts]
  constructor
  · intro everyRun
    obtain ⟨pfsa, same, holds⟩ := everyRun [] _ ((answered (scaleOf_lt blockSize sizeFits)).mpr
      ⟨rfl, rfl⟩)
    simp only [Option.some.injEq, Prod.mk.injEq, true_and] at same
    rw [same]
    exact holds
  · intro holds trace outcome run
    obtain ⟨_, rfl⟩ := (answered (scaleOf_lt blockSize sizeFits)).mp run
    exact ⟨_, rfl, holds⟩

/-- A disk of four terabytes is given in units of two blocks. -/
theorem diskSize_converts_iff_scaled : scaleOf 8589934590 = 2 ∧ ∀ trace outcome,
    Run (smbwrpDskattr (some 1))
      (⟨.request 1 .cliDiskSize, some (512, 8589934590, 1000000)⟩ :: trace) outcome →
    ∃ pfsa, outcome = some (0, some pfsa) ∧ ConvertsSize 512 8589934590 1000000 pfsa := by
  refine ⟨by decide, ?_⟩
  have sized : BlockSize 512 := ⟨9, by decide, by decide, rfl⟩
  exact (diskSize_converts_iff sized (by decide) (by decide)).mpr (by decide)

/-- 2 TB in blocks of 512 bytes are told as an empty disk. -/
theorem fourBillionBlocks_truncated :
    Run (smbwrpDskattr (some 1))
      [⟨.request 1 .cliDiskSize, some (512, 4294967296, 4294967296)⟩]
      (some (0, some ⟨1, 0, 0, 512⟩)) ∧
    ¬ ConvertsSize 512 4294967296 4294967296 ⟨1, 0, 0, 512⟩ := by
  constructor
  · exact (run_smbwrpDskattr (by decide)).mpr ⟨rfl, rfl⟩
  · intro converts
    exact absurd converts.unitsStored (by decide)

end NdpSmb
