import TFDB.RoundTrip

/-!
# The structure decoders of the Rust reader

The Rust reader has decoders of its own, with the checks in another order and bounds over other
integer types.  This module holds them beside the checksum they use.

* `Rust.crc32c_eq` — the bitwise checksum of the Rust reader is the table-driven one;
* `Rust.decodeVolumeHeader`, `Rust.decodePartitionHeader`, `Rust.decodeBlockHeader`,
  `Rust.decodeIndexEntry`, `Rust.decodeFooter` — the decoders.

Structures with the same members on both sides share one Lean type.
-/

set_option autoImplicit false

namespace TFDB

open ByteLib

/-! ## The checksum -/

namespace Rust

/-- One byte of the bitwise checksum. -/
def crcByte (value : UInt32) (byte : UInt8) : UInt32 :=
  (List.range 8).foldl (fun value _ => crcBit value) (value ^^^ byte.toUInt32)

/-- CRC-32C, bit by bit. -/
def crc32c (bytes : Bytes) : UInt32 := bytes.foldl crcByte 0xffffffff ^^^ 0xffffffff

end Rust

theorem toNat_and_one (a : UInt32) : (a &&& 1).toNat = a.toNat % 2 := by
  rw [UInt32.toNat_and]
  exact Nat.and_one_is_mod _

theorem and_one_cases (a : UInt32) : a &&& 1 = 0 ∨ a &&& 1 = 1 := by
  have h := toNat_and_one a
  rcases Nat.mod_two_eq_zero_or_one a.toNat with h0 | h0
  · exact Or.inl (UInt32.toNat_inj.mp (by rw [h, h0]; rfl))
  · exact Or.inr (UInt32.toNat_inj.mp (by rw [h, h0]; rfl))

/-- A bit of the checksum is linear. -/
theorem crcBit_xor (a b : UInt32) : crcBit (a ^^^ b) = crcBit a ^^^ crcBit b := by
  have hlow : (a ^^^ b) &&& 1 = (a &&& 1) ^^^ (b &&& 1) := by
    apply UInt32.toBitVec_inj.mp
    apply BitVec.eq_of_getElem_eq
    intro i hi
    simp only [UInt32.toBitVec_and, UInt32.toBitVec_xor, BitVec.getElem_and, BitVec.getElem_xor]
    exact Bool.and_xor_distrib_right _ _ _
  unfold crcBit
  rw [UInt32.shiftRight_xor, hlow]
  rcases and_one_cases a with ha | ha <;> rcases and_one_cases b with hb | hb <;> rw [ha, hb]
  · simp
  · simp [UInt32.xor_assoc]
  · simp only [UInt32.xor_zero, ne_eq, not_true_eq_false, if_false, UInt32.xor_assoc]
    rw [UInt32.xor_comm (b >>> 1)]
  · simp only [UInt32.xor_self, ne_eq, not_true_eq_false, if_false, UInt32.xor_zero]
    rw [UInt32.xor_assoc, UInt32.xor_comm _ ((b >>> 1) ^^^ _), UInt32.xor_assoc (b >>> 1),
      UInt32.xor_self, UInt32.xor_zero]

/-- An even remainder only moves down. -/
theorem crcBit_even {v : UInt32} {n : Nat} (h : v.toNat = 2 * n) : (crcBit v).toNat = n := by
  have h0 : v &&& 1 = 0 := UInt32.toNat_inj.mp (by rw [toNat_and_one, h]; simp)
  unfold crcBit
  rw [h0, if_neg (fun hx => hx rfl), UInt32.xor_zero, UInt32.toNat_shiftRight, h]
  show (2 * n) >>> 1 = n
  rw [Nat.shiftRight_eq_div_pow]
  omega

theorem crcTable_xor (a b : UInt32) : crcTable (a ^^^ b) = crcTable a ^^^ crcTable b := by
  simp only [crcTable, crcBit_xor]

/-- Eight bits of a remainder whose low byte is zero move it down by a byte. -/
theorem crcTable_high {v : UInt32} {n : Nat} (h : v.toNat = 256 * n) : (crcTable v).toNat = n := by
  have h1 := crcBit_even (v := v) (n := 128 * n) (by omega)
  have h2 := crcBit_even (n := 64 * n) (by rw [h1]; omega)
  have h3 := crcBit_even (n := 32 * n) (by rw [h2]; omega)
  have h4 := crcBit_even (n := 16 * n) (by rw [h3]; omega)
  have h5 := crcBit_even (n := 8 * n) (by rw [h4]; omega)
  have h6 := crcBit_even (n := 4 * n) (by rw [h5]; omega)
  have h7 := crcBit_even (n := 2 * n) (by rw [h6]; omega)
  exact crcBit_even h7

theorem split_low (x : UInt32) : x = (x &&& (0xff : UInt32)) ^^^ ((x >>> 8) <<< 8) := by
  apply UInt32.toNat_inj.mp
  have hx := x.toNat_lt
  have hhigh : ((x >>> 8) <<< 8).toNat = x.toNat / 256 * 256 := by
    rw [UInt32.toNat_shiftLeft, UInt32.toNat_shiftRight]
    show (x.toNat >>> 8) <<< 8 % 2 ^ 32 = _
    rw [Nat.shiftRight_eq_div_pow, Nat.shiftLeft_eq]
    omega
  have hlow : (x &&& (0xff : UInt32)).toNat = x.toNat % 256 := by
    rw [UInt32.toNat_and]
    exact Nat.and_two_pow_sub_one_eq_mod x.toNat 8
  rw [UInt32.toNat_xor, hhigh, hlow, show 256 = 2 ^ 8 from rfl]
  refine Nat.eq_of_testBit_eq fun i => ?_
  rw [Nat.testBit_xor, Nat.testBit_mod_two_pow, Nat.testBit_mul_two_pow, Nat.testBit_div_two_pow]
  by_cases hi : i < 8
  · simp [hi, Nat.not_le.mpr hi]
  · rw [Nat.sub_add_cancel (by omega)]
    simp [hi, Nat.le_of_not_lt hi]

/-- A byte of the table-driven checksum is eight bits of the bitwise one. -/
theorem crcStep_eq (state : UInt32) (b : UInt8) : crcStep state b = Rust.crcByte state b := by
  have hbits : Rust.crcByte state b = crcTable (state ^^^ b.toUInt32) := rfl
  have hbyte : b.toUInt32 >>> 8 = 0 := by
    apply UInt32.toNat_inj.mp
    have hb := b.toNat_lt
    rw [UInt32.toNat_shiftRight, UInt8.toNat_toUInt32]
    show b.toNat >>> 8 = 0
    rw [Nat.shiftRight_eq_div_pow]
    omega
  have hhigh : (state ^^^ b.toUInt32) >>> 8 = state >>> 8 := by
    rw [UInt32.shiftRight_xor, hbyte, UInt32.xor_zero]
  have hdown : crcTable ((state >>> 8) <<< 8) = state >>> 8 := by
    apply UInt32.toNat_inj.mp
    refine crcTable_high ?_
    have hlt := state.toNat_lt
    have hs : (state >>> 8).toNat = state.toNat / 256 := by
      rw [UInt32.toNat_shiftRight]
      show state.toNat >>> 8 = _
      rw [Nat.shiftRight_eq_div_pow]
    rw [UInt32.toNat_shiftLeft, hs]
    show (state.toNat / 256) <<< 8 % 2 ^ 32 = _
    rw [Nat.shiftLeft_eq]
    omega
  calc crcStep state b = crcTable ((state ^^^ b.toUInt32) &&& 0xff) ^^^ (state >>> 8) := rfl
    _ = crcTable ((state ^^^ b.toUInt32) &&& 0xff) ^^^
          crcTable (((state ^^^ b.toUInt32) >>> 8) <<< 8) := by rw [hhigh, hdown]
    _ = crcTable (state ^^^ b.toUInt32) := by rw [← crcTable_xor, ← split_low]
    _ = Rust.crcByte state b := hbits.symm

theorem Rust.crc32c_eq (bytes : Bytes) : Rust.crc32c bytes = TFDB.crc32c bytes := by
  have hstep : Rust.crcByte = crcStep := by
    funext state b
    exact (crcStep_eq state b).symm
  rw [Rust.crc32c, hstep]
  rfl

/-! ## Errors -/

namespace Rust

/-- The kinds of errors. -/
inductive ErrorKind
  | invalidArgument | io | corrupt | unsupported | overwritten
  deriving DecidableEq, Repr

/-- An error, with its text. -/
structure Error where
  kind : ErrorKind
  message : String
  deriving DecidableEq, Repr

namespace Error

def corrupt {α : Type} (message : String) : Except Error α := .error ⟨.corrupt, message⟩
def unsupported {α : Type} (message : String) : Except Error α := .error ⟨.unsupported, message⟩

end Error

end Rust

/-! ## The decoders -/

namespace Rust

/-- `reserved_zero`: the bytes from `first` to `last` are zero. -/
def reservedZero (bytes : Bytes) (first last : Nat) (what : String) : Except Error Unit :=
  if (slice bytes first (last - first)).any (· != 0) then
    Error.corrupt (what ++ " reserved bytes are nonzero")
  else .ok ()

/-- The checks every structure starts with, and the structure cut to its size. -/
def common (bytes magic : Bytes) (encodedSize crcOffset : Nat) : Except Error Bytes :=
  if bytes.length < encodedSize then Error.corrupt "truncated persistent structure"
  else
    let bytes := bytes.take encodedSize
    if bytes.take 8 ≠ magic then Error.corrupt "persistent structure magic mismatch"
    else if get16 bytes 8 ≠ 1 then Error.unsupported "unsupported TFDB format major"
    else if get16 bytes 10 > 0 then Error.unsupported "unsupported TFDB format minor"
    else if (get32 bytes 12).toNat ≠ encodedSize then
      Error.corrupt "persistent structure size mismatch"
    else if crc32c (put bytes crcOffset (zeros 4)) ≠ get32 bytes crcOffset then
      Error.corrupt "persistent structure CRC32C mismatch"
    else .ok bytes

/-- A volume header of a volume that has an ID and a geometry. -/
def decodeVolumeHeader (input : Bytes) : Except Error VolumeHeader := do
  let bytes ← common input volumeMagic volumeHeaderEncodedSize 72
  reservedZero bytes 76 volumeHeaderEncodedSize "volume header"
  let result : VolumeHeader :=
    { volumeIdHigh := get64 bytes 16, volumeIdLow := get64 bytes 24
      volumeSize := get64 bytes 32, partitionSize := get64 bytes 40
      partitionCount := get32 bytes 48, indexRegionSize := get32 bytes 52
      maxBlockPayload := get32 bytes 56, persistenceQuantum := get32 bytes 60
      createdTimeNs := geti64 bytes 64 }
  if result.volumeIdHigh = 0 ∧ result.volumeIdLow = 0 then Error.corrupt "zero volume ID"
  else if result.partitionCount < 2 ∨ result.partitionSize = 0 ∨ result.maxBlockPayload = 0 ∨
      result.persistenceQuantum = 0 then
    Error.corrupt "invalid volume geometry"
  else .ok result

/-- A decoded partition header; the options are fields of its own. -/
structure PartitionHeader where
  volumeIdHigh : UInt64
  volumeIdLow : UInt64
  generation : UInt64
  slot : UInt32
  createdTimeNs : Int64
  maxBlockPayload : UInt32
  persistenceQuantum : UInt32
  allowedBackwardSkewNs : Int64
  allowedForwardStepNs : Int64
  timeDomainId : UInt64
  compressionId : UInt16
  compressionVersion : UInt16
  recordFormatId : UInt64
  recordFormatVersion : UInt16
  features : List FeatureDescriptor

/-- The locals of the loop over the feature directory. -/
structure Directory where
  features : List FeatureDescriptor := []
  ranges : List (Nat × Nat) := []
  compression : Option (UInt16 × UInt16) := none
  timeIndex : Bool := false
  recordProfile : Option (UInt64 × UInt16) := none
  integrity : Bool := false

/-- The configuration range of one descriptor, checked against those before it. -/
def configRange (f : FeatureDescriptor) (ranges : List (Nat × Nat)) :
    Except Error (List (Nat × Nat)) :=
  if f.configLength = 0 then
    if f.configOffset ≠ 0 then Error.corrupt "empty feature config has nonzero offset" else .ok ranges
  else
    let first := f.configOffset.toNat
    let last := first + f.configLength.toNat
    if first < 512 ∨ last > 512 + 16 then Error.corrupt "feature config outside configuration area"
    else if ranges.any fun r => decide (first < r.2) && decide (r.1 < last) then
      Error.corrupt "overlapping feature configurations"
    else .ok (ranges ++ [(first, last)])

/-- Does a reader have to know the feature? -/
def required (f : FeatureDescriptor) : Bool := f.flags &&& featureRequired != 0

/-- The part of a descriptor that depends on its kind. -/
def matchKind (bytes : Bytes) (f : FeatureDescriptor) (d : Directory) : Except Error Directory :=
  if f.kind = featureCompression then
    if d.compression.isSome ∨ ¬ required f ∨ f.version = 0 ∨ f.algorithm > 0xffff ∨
        f.configLength ≠ 0 ∨ f.regionOffset ≠ 0 ∨ f.regionLength ≠ 0 then
      Error.corrupt "invalid compression feature"
    else .ok { d with compression := some (f.algorithm.toUInt16, f.version) }
  else if f.kind = featureTimeIndex then
    if d.timeIndex then Error.corrupt "duplicate time-index feature"
    else if ¬ required f ∨ f.configLength ≠ 0 ∨ f.regionLength = 0 then
      Error.corrupt "invalid time-index feature"
    else if f.algorithm ≠ 1 ∨ f.version ≠ 1 then Error.unsupported "unsupported time index"
    else .ok { d with timeIndex := true }
  else if f.kind = featureRecordProfile then
    if d.recordProfile.isSome ∨ f.flags ≠ 0 ∨ f.algorithm ≠ 0 ∨ f.configOffset ≠ 512 ∨
        f.configLength ≠ 8 ∨ f.regionOffset ≠ 0 ∨ f.regionLength ≠ 0 then
      Error.corrupt "invalid record-profile feature"
    else .ok { d with recordProfile := some (get64 bytes 512, f.version) }
  else if f.kind = featureIntegrity then
    if d.integrity ∨ ¬ required f ∨ f.configLength ≠ 0 ∨ f.regionOffset ≠ 0 ∨
        f.regionLength ≠ 0 then
      Error.corrupt "invalid integrity feature"
    else if f.algorithm ≠ 1 ∨ f.version ≠ 1 then Error.unsupported "unsupported integrity feature"
    else .ok { d with integrity := true }
  else if required f then Error.unsupported "unknown required partition feature"
  else .ok d

/-- One turn of the loop over the feature directory. -/
def nextFeature (bytes : Bytes) (d : Directory) (index : Nat) : Except Error Directory := do
  let offset := 128 + index * featureDescriptorSize
  reservedZero bytes (offset + 10) (offset + 12) "feature descriptor"
  reservedZero bytes (offset + 20) (offset + 24) "feature descriptor"
  let f := decodeDescriptor bytes offset
  if f.flags &&& ~~~featureRequired ≠ 0 then Error.corrupt "unknown feature flag"
  else
    let ranges ← configRange f d.ranges
    let d ← matchKind bytes f { d with ranges := ranges }
    .ok { d with features := d.features ++ [f] }

/-- A partition header: its fixed fields and its feature directory. -/
def decodePartitionHeader (input : Bytes) : Except Error PartitionHeader := do
  let bytes ← common input partitionMagic partitionHeaderEncodedSize 104
  reservedZero bytes 44 48 "partition header"
  reservedZero bytes 108 128 "partition header"
  let count := (get16 bytes 88).toNat
  if count < 4 ∨ count > 8 ∨ (get16 bytes 90).toNat ≠ featureDescriptorSize ∨
      (get32 bytes 92).toNat ≠ 128 ∨ (get32 bytes 96).toNat ≠ 512 ∨ (get32 bytes 100).toNat ≠ 16 ∨
      (get32 bytes 92).toNat + count * (get16 bytes 90).toNat > 448 then
    Error.corrupt "invalid partition feature directory"
  else
    let d ← (List.range count).foldlM (nextFeature bytes) {}
    match d.compression with
    | none => Error.corrupt "missing compression feature"
    | some (compressionId, compressionVersion) =>
      if ¬ d.timeIndex ∨ ¬ d.integrity then Error.corrupt "missing core partition feature"
      else
        match d.recordProfile with
        | none => Error.corrupt "missing record-profile feature"
        | some (recordFormatId, recordFormatVersion) =>
          if (recordFormatId = 0) ≠ (recordFormatVersion = 0) then
            Error.corrupt "record profile ID/version mismatch"
          else
            .ok
              { volumeIdHigh := get64 bytes 16, volumeIdLow := get64 bytes 24
                generation := get64 bytes 32, slot := get32 bytes 40
                createdTimeNs := geti64 bytes 48, maxBlockPayload := get32 bytes 56
                persistenceQuantum := get32 bytes 60, allowedBackwardSkewNs := geti64 bytes 64
                allowedForwardStepNs := geti64 bytes 72, timeDomainId := get64 bytes 80
                compressionId := compressionId, compressionVersion := compressionVersion
                recordFormatId := recordFormatId, recordFormatVersion := recordFormatVersion
                features := d.features }

/-- The bounds of a block header; the sum is a 64-bit one. -/
def blockInBounds (b : BlockHeader) : Bool :=
  ! (b.storedSize == 0 || b.rawSize == 0 || b.recordCount == 0 ||
     (b.writerIdHigh == 0 && b.writerIdLow == 0) || decide (b.minTimeNs > b.maxTimeNs) ||
     decide (b.frameSpan.toNat < blockHeaderEncodedSize + b.storedSize.toNat))

/-- A block header within its bounds. -/
def decodeBlockHeader (input : Bytes) : Except Error BlockHeader := do
  let bytes ← common input blockMagic blockHeaderEncodedSize 72
  let result : BlockHeader :=
    { generation := get64 bytes 16, sequence := get32 bytes 24, flags := get32 bytes 28
      recordCount := get32 bytes 32, storedSize := get32 bytes 36, rawSize := get32 bytes 40
      frameSpan := get32 bytes 44, minTimeNs := geti64 bytes 48, maxTimeNs := geti64 bytes 56
      compression := ⟨get16 bytes 64⟩, compressionVersion := get16 bytes 66
      payloadCrc := get32 bytes 68, slot := get32 bytes 76
      volumeIdLow := get64 bytes 80, volumeIdHigh := get64 bytes 88
      writerIdHigh := get64 bytes 96, writerIdLow := get64 bytes 104
      previousWriterIdHigh := get64 bytes 112, previousWriterIdLow := get64 bytes 120 }
  if ¬ blockInBounds result then Error.corrupt "invalid block bounds" else .ok result

/-- One entry of a time index; the writer ID is not stored. -/
def decodeIndexEntry (bytes : Bytes) : Except Error IndexEntry :=
  if bytes.length < indexEntryEncodedSize then Error.corrupt "truncated time-index entry"
  else
    let result : IndexEntry :=
      { offset := get64 bytes 0, frameSize := get32 bytes 8, frameSpan := get32 bytes 12
        sequence := get32 bytes 16, recordCount := get32 bytes 20, minTimeNs := geti64 bytes 24
        maxTimeNs := geti64 bytes 32, flags := get32 bytes 40, rawSize := get32 bytes 44
        writerIdHigh := 0, writerIdLow := 0 }
    if result.frameSize < 128 ∨ result.frameSize > result.frameSpan ∨ result.recordCount = 0 ∨
        result.minTimeNs > result.maxTimeNs then
      Error.corrupt "invalid time-index entry bounds"
    else .ok result

/-- A footer whose index size agrees with its block count. -/
def decodeFooter (input : Bytes) : Except Error PartitionFooter := do
  let bytes ← common input footerMagic partitionFooterEncodedSize 100
  reservedZero bytes 68 72 "partition footer"
  reservedZero bytes 104 partitionFooterEncodedSize "partition footer"
  if (get32 bytes 52).toNat ≠ indexEntryEncodedSize then
    Error.unsupported "unsupported time-index entry size"
  else
    let result : PartitionFooter :=
      { volumeIdHigh := get64 bytes 16, volumeIdLow := get64 bytes 24
        generation := get64 bytes 32, slot := get32 bytes 40, flags := get32 bytes 44
        blockCount := get32 bytes 48, indexOffset := get64 bytes 56
        indexSize := get32 bytes 64, dataEnd := get64 bytes 72
        minTimeNs := geti64 bytes 80, maxTimeNs := geti64 bytes 88, indexCrc := get32 bytes 96 }
    if result.indexSize.toNat ≠ result.blockCount.toNat * indexEntryEncodedSize ∨
        (result.blockCount ≠ 0 ∧ result.minTimeNs > result.maxTimeNs) then
      Error.corrupt "invalid partition footer bounds"
    else .ok result

end Rust

end TFDB
