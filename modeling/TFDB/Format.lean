import TFDB.Status
import TFDB.Crc32c

/-!
# On-media structures

The fixed-size structures of `internal_format.hpp` with their encoders and decoders: volume
header, partition header with its feature directory, block header, index entry and partition
footer.  An encoder is a field table (`layout`) closed by its CRC (`finishCrc`); a decoder is
the source's chain of checks, with the texts of its errors.
-/

set_option autoImplicit false

namespace TFDB

open ByteLib

/-! ## Sizes and magics -/

def formatMajor : UInt16 := 1
def formatMinor : UInt16 := 0
def volumeHeaderCopySize : Nat := 4096
def volumeHeaderEncodedSize : Nat := 256
def volumePrefixSize : Nat := 8192
def partitionHeaderRegionSize : Nat := 4096
def partitionHeaderEncodedSize : Nat := 1024
def partitionFooterRegionSize : Nat := 4096
def partitionFooterEncodedSize : Nat := 256
def blockHeaderEncodedSize : Nat := 128
def indexEntryEncodedSize : Nat := 48
def featureDescriptorSize : Nat := 40

def featureRequired : UInt16 := 1
def featureCompression : UInt16 := 1
def featureTimeIndex : UInt16 := 2
def featureRecordProfile : UInt16 := 3
def featureIntegrity : UInt16 := 4
def integrityCrc32c : UInt32 := 1
def timeIndexMinMax : UInt32 := 1

/-- `TFDBVOL1` -/
def volumeMagic : Bytes := [0x54, 0x46, 0x44, 0x42, 0x56, 0x4f, 0x4c, 0x31]
/-- `TFDBPAR1` -/
def partitionMagic : Bytes := [0x54, 0x46, 0x44, 0x42, 0x50, 0x41, 0x52, 0x31]
/-- `TFDBBLK1` -/
def blockMagic : Bytes := [0x54, 0x46, 0x44, 0x42, 0x42, 0x4c, 0x4b, 0x31]
/-- `TFDBFTR1` -/
def footerMagic : Bytes := [0x54, 0x46, 0x44, 0x42, 0x46, 0x54, 0x52, 0x31]

/-! ## Structures -/

/-- An open enumeration: any 16-bit value can be stored. -/
structure CompressionId where
  value : UInt16
  deriving DecidableEq, Repr

def CompressionId.none : CompressionId := ⟨0⟩
def CompressionId.packbits : CompressionId := ⟨1⟩
def CompressionId.lz4Block : CompressionId := ⟨2⟩

/-- How the blocks and records of a partition are to be read. -/
structure PartitionOptions where
  compression : CompressionId := .none
  compressionVersion : UInt16 := 1
  recordFormatId : UInt64 := 0
  recordFormatVersion : UInt16 := 0
  timeDomainId : UInt64 := 1
  allowedBackwardSkewNs : Int64 := -1
  allowedForwardStepNs : Int64 := -1
  deriving DecidableEq

/-- The geometry of a volume, and the ID of its incarnation. -/
structure VolumeHeader where
  volumeIdHigh : UInt64 := 0
  volumeIdLow : UInt64 := 0
  volumeSize : UInt64 := 0
  partitionSize : UInt64 := 0
  partitionCount : UInt32 := 0
  indexRegionSize : UInt32 := 0
  maxBlockPayload : UInt32 := 0
  persistenceQuantum : UInt32 := 0
  createdTimeNs : Int64 := 0
  deriving DecidableEq

/-- An entry of the feature directory. -/
structure FeatureDescriptor where
  kind : UInt16 := 0
  flags : UInt16 := 0
  algorithm : UInt32 := 0
  version : UInt16 := 0
  configOffset : UInt32 := 0
  configLength : UInt32 := 0
  regionOffset : UInt64 := 0
  regionLength : UInt64 := 0
  deriving DecidableEq

/-- The identity of a partition, its options, and its features. -/
structure PartitionHeader where
  volumeIdHigh : UInt64 := 0
  volumeIdLow : UInt64 := 0
  generation : UInt64 := 0
  slot : UInt32 := 0
  createdTimeNs : Int64 := 0
  maxBlockPayload : UInt32 := 0
  persistenceQuantum : UInt32 := 0
  options : PartitionOptions := {}
  features : List FeatureDescriptor := []
  deriving DecidableEq

/-- `writerId` is the random ID of the writable store that emitted the block;
`previousWriterId` is the one of the block before it. -/
structure BlockHeader where
  generation : UInt64 := 0
  slot : UInt32 := 0
  sequence : UInt32 := 0
  flags : UInt32 := 0
  recordCount : UInt32 := 0
  storedSize : UInt32 := 0
  rawSize : UInt32 := 0
  frameSpan : UInt32 := 0
  minTimeNs : Int64 := 0
  maxTimeNs : Int64 := 0
  compression : CompressionId := .none
  compressionVersion : UInt16 := 1
  payloadCrc : UInt32 := 0
  volumeIdLow : UInt64 := 0
  volumeIdHigh : UInt64 := 0
  writerIdHigh : UInt64 := 0
  writerIdLow : UInt64 := 0
  previousWriterIdHigh : UInt64 := 0
  previousWriterIdLow : UInt64 := 0
  deriving DecidableEq

/-- The writer ID is rebuilt by scans and kept by the writer; it is not serialized. -/
structure IndexEntry where
  offset : UInt64 := 0
  frameSize : UInt32 := 0
  frameSpan : UInt32 := 0
  sequence : UInt32 := 0
  recordCount : UInt32 := 0
  minTimeNs : Int64 := 0
  maxTimeNs : Int64 := 0
  flags : UInt32 := 0
  rawSize : UInt32 := 0
  writerIdHigh : UInt64 := 0
  writerIdLow : UInt64 := 0
  deriving DecidableEq

/-- The totals of a sealed partition, and where its index is. -/
structure PartitionFooter where
  volumeIdHigh : UInt64 := 0
  volumeIdLow : UInt64 := 0
  generation : UInt64 := 0
  slot : UInt32 := 0
  flags : UInt32 := 0
  blockCount : UInt32 := 0
  indexOffset : UInt64 := 0
  indexSize : UInt32 := 0
  dataEnd : UInt64 := 0
  minTimeNs : Int64 := 0
  maxTimeNs : Int64 := 0
  indexCrc : UInt32 := 0
  deriving DecidableEq

/-! ## Fields -/

def put16 (v : UInt16) : Bytes := leBytes 2 v.toNat
def put32 (v : UInt32) : Bytes := leBytes 4 v.toNat
def put64 (v : UInt64) : Bytes := leBytes 8 v.toNat
def puti64 (v : Int64) : Bytes := put64 v.toUInt64

def get16 (bytes : Bytes) (off : Nat) : UInt16 := UInt16.ofNat (leNat (slice bytes off 2))
def get32 (bytes : Bytes) (off : Nat) : UInt32 := UInt32.ofNat (leNat (slice bytes off 4))
def get64 (bytes : Bytes) (off : Nat) : UInt64 := UInt64.ofNat (leNat (slice bytes off 8))

/-- The value of a two's complement, without a conversion that depends on the machine. -/
def geti64 (bytes : Bytes) (off : Nat) : Int64 :=
  let value := get64 bytes off
  if value ≤ 0x7fffffffffffffff then value.toInt64 else -1 - (~~~value).toInt64

def magicIs (bytes magic : Bytes) : Bool := decide (8 ≤ bytes.length) && slice bytes 0 8 == magic

def allZero (bytes : Bytes) (off n : Nat) : Bool := (slice bytes off n).all (· == 0)

@[simp] theorem put16_length (v : UInt16) : (put16 v).length = 2 := leBytes_length ..
@[simp] theorem put32_length (v : UInt32) : (put32 v).length = 4 := leBytes_length ..
@[simp] theorem put64_length (v : UInt64) : (put64 v).length = 8 := leBytes_length ..
@[simp] theorem puti64_length (v : Int64) : (puti64 v).length = 8 := leBytes_length ..

theorem get16_of_slice {bs : Bytes} {off : Nat} {v : UInt16} (h : slice bs off 2 = put16 v) :
    get16 bs off = v := by
  apply UInt16.toNat_inj.mp
  have hv := v.toNat_lt
  rw [get16, h, put16, leNat_leBytes, UInt16.toNat_ofNat']
  omega

theorem get32_of_slice {bs : Bytes} {off : Nat} {v : UInt32} (h : slice bs off 4 = put32 v) :
    get32 bs off = v := by
  apply UInt32.toNat_inj.mp
  have hv := v.toNat_lt
  rw [get32, h, put32, leNat_leBytes, UInt32.toNat_ofNat']
  omega

theorem get64_of_slice {bs : Bytes} {off : Nat} {v : UInt64} (h : slice bs off 8 = put64 v) :
    get64 bs off = v := by
  apply UInt64.toNat_inj.mp
  have hv := v.toNat_lt
  rw [get64, h, put64, leNat_leBytes, UInt64.toNat_ofNat']
  omega

theorem geti64_eq (bs : Bytes) (off : Nat) : geti64 bs off = (get64 bs off).toInt64 := by
  unfold geti64
  simp only
  split
  · rfl
  · apply Int64.toBitVec_inj.mp
    simp
    bv_omega

theorem geti64_of_slice {bs : Bytes} {off : Nat} {v : Int64} (h : slice bs off 8 = puti64 v) :
    geti64 bs off = v := by
  rw [geti64_eq, get64_of_slice h]
  exact Int64.toInt64_toUInt64 v

theorem allZero_of_slice {bs : Bytes} {off n : Nat} (h : slice bs off n = zeros n) :
    allZero bs off n = true := by
  simp [allZero, h, zeros]

/-! ## Checksummed structures -/

/-- Zero the four bytes at `off`, then store the checksum of the whole string there. -/
def finishCrc (bytes : Bytes) (off : Nat) : Bytes :=
  let cleared := put bytes off (put32 0)
  put cleared off (put32 (crc32c cleared))

/-- `common_check`: magic, version, size and checksum. -/
def commonCheck (bytes magic : Bytes) (expectedSize crcOffset : Nat) : Except Status Unit :=
  if bytes.length < expectedSize then failWith .corrupt "truncated structure"
  else if ¬ magicIs bytes magic then failWith .corrupt "structure magic mismatch"
  else if get16 bytes 8 ≠ formatMajor then failWith .unsupported "unsupported format major"
  else if get16 bytes 10 > formatMinor then failWith .unsupported "unsupported format minor"
  else
    let encodedSize := (get32 bytes 12).toNat
    if encodedSize ≠ expectedSize ∨ encodedSize > bytes.length then
      failWith .corrupt "structure size mismatch"
    else if crcOffset + 4 > encodedSize then
      failWith .internalError "structure CRC field outside its own encoding"
    else if crc32cWithZeroedField (bytes.take encodedSize) crcOffset ≠ get32 bytes crcOffset then
      failWith .corrupt "structure CRC mismatch"
    else .ok ()

/-- The four fields every checksummed structure starts with. -/
def commonFields (magic : Bytes) (size : Nat) : List (Nat × Bytes) :=
  [(0, magic), (8, put16 formatMajor), (10, put16 formatMinor), (12, leBytes 4 size)]

/-! ## Volume header -/

def volumeHeaderFields (h : VolumeHeader) : List (Nat × Bytes) :=
  commonFields volumeMagic volumeHeaderEncodedSize ++
  [(16, put64 h.volumeIdHigh), (24, put64 h.volumeIdLow), (32, put64 h.volumeSize),
   (40, put64 h.partitionSize), (48, put32 h.partitionCount), (52, put32 h.indexRegionSize),
   (56, put32 h.maxBlockPayload), (60, put32 h.persistenceQuantum), (64, puti64 h.createdTimeNs)]

def encodeVolumeHeader (h : VolumeHeader) : Bytes :=
  finishCrc (layout volumeHeaderEncodedSize 0 (volumeHeaderFields h)) 72

/-- A volume header with partitions and blocks; `open` checks the rest of the geometry. -/
def decodeVolumeHeader (bytes : Bytes) : Except Status VolumeHeader := do
  commonCheck bytes volumeMagic volumeHeaderEncodedSize 72
  if ¬ allZero bytes 76 (volumeHeaderEncodedSize - 76) then
    failWith .corrupt "volume header reserved bytes are nonzero"
  else
    let h : VolumeHeader :=
      { volumeIdHigh := get64 bytes 16, volumeIdLow := get64 bytes 24
        volumeSize := get64 bytes 32, partitionSize := get64 bytes 40
        partitionCount := get32 bytes 48, indexRegionSize := get32 bytes 52
        maxBlockPayload := get32 bytes 56, persistenceQuantum := get32 bytes 60
        createdTimeNs := geti64 bytes 64 }
    if h.partitionCount < 2 ∨ h.partitionSize = 0 ∨ h.maxBlockPayload = 0 ∨
        h.persistenceQuantum = 0 then
      failWith .corrupt "invalid volume geometry"
    else .ok h

/-! ## Partition header -/

def descriptorFields (off : Nat) (d : FeatureDescriptor) : List (Nat × Bytes) :=
  [(off, put16 d.kind), (off + 2, put16 d.flags), (off + 4, put32 d.algorithm),
   (off + 8, put16 d.version), (off + 12, put32 d.configOffset), (off + 16, put32 d.configLength),
   (off + 24, put64 d.regionOffset), (off + 32, put64 d.regionLength)]

def compressionDescriptor (o : PartitionOptions) : FeatureDescriptor where
  kind := featureCompression
  flags := featureRequired
  algorithm := o.compression.value.toUInt32
  version := o.compressionVersion

def timeIndexDescriptor (partitionSize : UInt64) (indexRegionSize : UInt32) : FeatureDescriptor where
  kind := featureTimeIndex
  flags := featureRequired
  algorithm := timeIndexMinMax
  version := 1
  regionOffset := partitionSize - 4096 - indexRegionSize.toUInt64
  regionLength := indexRegionSize.toUInt64

def recordProfileDescriptor (o : PartitionOptions) : FeatureDescriptor where
  kind := featureRecordProfile
  version := o.recordFormatVersion
  configOffset := 512
  configLength := 8

def integrityDescriptor : FeatureDescriptor where
  kind := featureIntegrity
  flags := featureRequired
  algorithm := integrityCrc32c
  version := 1

/-- The directory a writer stores. -/
def writerFeatures (o : PartitionOptions) (partitionSize : UInt64) (indexRegionSize : UInt32) :
    List FeatureDescriptor :=
  [compressionDescriptor o, timeIndexDescriptor partitionSize indexRegionSize,
   recordProfileDescriptor o, integrityDescriptor]

def partitionHeaderFields (h : PartitionHeader) (features : List FeatureDescriptor) :
    List (Nat × Bytes) :=
  commonFields partitionMagic partitionHeaderEncodedSize ++
  [(16, put64 h.volumeIdHigh), (24, put64 h.volumeIdLow), (32, put64 h.generation),
   (40, put32 h.slot), (48, puti64 h.createdTimeNs), (56, put32 h.maxBlockPayload),
   (60, put32 h.persistenceQuantum), (64, puti64 h.options.allowedBackwardSkewNs),
   (72, puti64 h.options.allowedForwardStepNs), (80, put64 h.options.timeDomainId),
   (88, put16 4), (90, put16 40), (92, put32 128), (96, put32 512), (100, put32 16)] ++
  (features.zipIdx.flatMap fun d => descriptorFields (128 + d.2 * featureDescriptorSize) d.1) ++
  [(512, put64 h.options.recordFormatId)]

def encodePartitionHeader (h : PartitionHeader) (partitionSize : UInt64)
    (indexRegionSize : UInt32) : Bytes :=
  finishCrc (layout partitionHeaderEncodedSize 0
    (partitionHeaderFields h (writerFeatures h.options partitionSize indexRegionSize))) 104

/-- What the loop over the feature directory has collected so far. -/
structure FeatureScan where
  options : PartitionOptions := {}
  features : List FeatureDescriptor := []
  configRanges : List (UInt32 × UInt32) := []
  compression : Bool := false
  timeIndex : Bool := false
  recordProfile : Bool := false
  integrity : Bool := false

/-- One entry of the feature directory, as it is stored. -/
def decodeDescriptor (bytes : Bytes) (d : Nat) : FeatureDescriptor :=
  { kind := get16 bytes d, flags := get16 bytes (d + 2), algorithm := get32 bytes (d + 4)
    version := get16 bytes (d + 8), configOffset := get32 bytes (d + 12)
    configLength := get32 bytes (d + 16), regionOffset := get64 bytes (d + 24)
    regionLength := get64 bytes (d + 32) }

/-- The configuration range of one descriptor, checked against those before it. -/
def checkConfigRange (f : FeatureDescriptor) (ranges : List (UInt32 × UInt32)) :
    Except Status (List (UInt32 × UInt32)) :=
  if f.configLength = 0 then
    if f.configOffset ≠ 0 then failWith .corrupt "empty feature config has nonzero offset"
    else .ok ranges
  else if f.configOffset < 512 ∨ f.configOffset > 528 ∨ f.configLength > 528 - f.configOffset then
    failWith .corrupt "feature config outside configuration area"
  else
    let featureEnd := f.configOffset + f.configLength
    if ranges.any fun r => decide (f.configOffset < r.2) && decide (r.1 < featureEnd) then
      failWith .corrupt "overlapping feature configurations"
    else .ok (ranges ++ [(f.configOffset, featureEnd)])

/-- The part of a descriptor that depends on its kind. -/
def decodeFeatureKind (bytes : Bytes) (f : FeatureDescriptor) (acc : FeatureScan) :
    Except Status FeatureScan :=
  if f.kind = featureCompression then
    if acc.compression then failWith .corrupt "duplicate compression feature"
    else if f.flags &&& featureRequired = 0 ∨ f.version = 0 ∨ f.algorithm > 0xffff ∨
        f.configOffset ≠ 0 ∨ f.configLength ≠ 0 ∨ f.regionOffset ≠ 0 ∨ f.regionLength ≠ 0 then
      failWith .corrupt "invalid compression feature descriptor"
    else .ok { acc with
      compression := true
      options := { acc.options with
        compression := ⟨f.algorithm.toUInt16⟩, compressionVersion := f.version } }
  else if f.kind = featureTimeIndex then
    if acc.timeIndex then failWith .corrupt "duplicate time-index feature"
    else if f.flags &&& featureRequired = 0 ∨ f.configOffset ≠ 0 ∨ f.configLength ≠ 0 ∨
        f.regionLength = 0 then
      failWith .corrupt "invalid time-index feature descriptor"
    else if f.algorithm ≠ timeIndexMinMax ∨ f.version ≠ 1 then
      failWith .unsupported "unsupported time index"
    else .ok { acc with timeIndex := true }
  else if f.kind = featureRecordProfile then
    if acc.recordProfile then failWith .corrupt "duplicate record-profile feature"
    else if f.flags ≠ 0 ∨ f.algorithm ≠ 0 ∨ f.configOffset ≠ 512 ∨ f.configLength ≠ 8 ∨
        f.regionOffset ≠ 0 ∨ f.regionLength ≠ 0 then
      failWith .corrupt "invalid record-profile feature descriptor"
    else .ok { acc with
      recordProfile := true
      options := { acc.options with
        recordFormatVersion := f.version, recordFormatId := get64 bytes f.configOffset.toNat } }
  else if f.kind = featureIntegrity then
    if acc.integrity then failWith .corrupt "duplicate integrity feature"
    else if f.flags &&& featureRequired = 0 ∨ f.configOffset ≠ 0 ∨ f.configLength ≠ 0 ∨
        f.regionOffset ≠ 0 ∨ f.regionLength ≠ 0 then
      failWith .corrupt "invalid integrity feature descriptor"
    else if f.algorithm ≠ integrityCrc32c ∨ f.version ≠ 1 then
      failWith .unsupported "unsupported integrity feature"
    else .ok { acc with integrity := true }
  else if f.flags &&& featureRequired ≠ 0 then failWith .unsupported "unknown required feature"
  else .ok acc

/-- One turn of the loop over the feature directory. -/
def decodeFeature (bytes : Bytes) (acc : FeatureScan) (i : Nat) : Except Status FeatureScan := do
  let d := 128 + i * featureDescriptorSize
  let f := decodeDescriptor bytes d
  if f.flags &&& ~~~featureRequired ≠ 0 ∨ ¬ allZero bytes (d + 10) 2 ∨ ¬ allZero bytes (d + 20) 4 then
    failWith .corrupt "feature descriptor reserved fields are nonzero"
  else
    let ranges ← checkConfigRange f acc.configRanges
    let acc ← decodeFeatureKind bytes f { acc with configRanges := ranges }
    .ok { acc with features := acc.features ++ [f] }

/-- A partition header: its fixed fields and its feature directory. -/
def decodePartitionHeader (bytes : Bytes) : Except Status PartitionHeader := do
  commonCheck bytes partitionMagic partitionHeaderEncodedSize 104
  if ¬ allZero bytes 44 4 ∨ ¬ allZero bytes 108 20 then
    failWith .corrupt "partition header reserved bytes are nonzero"
  else
    let count := (get16 bytes 88).toNat
    if count > 8 ∨ (get16 bytes 90).toNat ≠ featureDescriptorSize ∨ get32 bytes 92 ≠ 128 ∨
        get32 bytes 96 ≠ 512 ∨ get32 bytes 100 ≠ 16 ∨
        count * (get16 bytes 90).toNat > partitionHeaderEncodedSize - (get32 bytes 92).toNat then
      failWith .corrupt "invalid feature directory"
    else
      let start : FeatureScan :=
        { options :=
            { allowedBackwardSkewNs := geti64 bytes 64, allowedForwardStepNs := geti64 bytes 72
              timeDomainId := get64 bytes 80 } }
      let scan ← (List.range count).foldlM (decodeFeature bytes) start
      if ¬ scan.compression ∨ ¬ scan.timeIndex ∨ ¬ scan.integrity ∨ ¬ scan.recordProfile then
        failWith .corrupt "missing core feature"
      else if (scan.options.recordFormatId = 0) ≠ (scan.options.recordFormatVersion = 0) then
        failWith .corrupt "record profile ID/version mismatch"
      else
        .ok
          { volumeIdHigh := get64 bytes 16, volumeIdLow := get64 bytes 24
            generation := get64 bytes 32, slot := get32 bytes 40
            createdTimeNs := geti64 bytes 48, maxBlockPayload := get32 bytes 56
            persistenceQuantum := get32 bytes 60, options := scan.options
            features := scan.features }

/-! ## Block header -/

def blockHeaderFields (h : BlockHeader) : List (Nat × Bytes) :=
  commonFields blockMagic blockHeaderEncodedSize ++
  [(16, put64 h.generation), (24, put32 h.sequence), (28, put32 h.flags),
   (32, put32 h.recordCount), (36, put32 h.storedSize), (40, put32 h.rawSize),
   (44, put32 h.frameSpan), (48, puti64 h.minTimeNs), (56, puti64 h.maxTimeNs),
   (64, put16 h.compression.value), (66, put16 h.compressionVersion), (68, put32 h.payloadCrc),
   (76, put32 h.slot), (80, put64 h.volumeIdLow), (88, put64 h.volumeIdHigh),
   (96, put64 h.writerIdHigh), (104, put64 h.writerIdLow),
   (112, put64 h.previousWriterIdHigh), (120, put64 h.previousWriterIdLow)]

def encodeBlockHeader (h : BlockHeader) : Bytes :=
  finishCrc (layout blockHeaderEncodedSize 0 (blockHeaderFields h)) 72

/-- The checks of the block decoder behind the checksum.  The sum is a 32-bit one. -/
def BlockHeader.inBounds (h : BlockHeader) : Bool :=
  ! (h.storedSize == 0 || h.rawSize == 0 || h.recordCount == 0 ||
     (h.writerIdHigh == 0 && h.writerIdLow == 0) || decide (h.minTimeNs > h.maxTimeNs) ||
     decide (h.frameSpan < 128 + h.storedSize))

/-- A block header within its bounds. -/
def decodeBlockHeader (bytes : Bytes) : Except Status BlockHeader := do
  commonCheck bytes blockMagic blockHeaderEncodedSize 72
  let h : BlockHeader :=
    { generation := get64 bytes 16, sequence := get32 bytes 24, flags := get32 bytes 28
      recordCount := get32 bytes 32, storedSize := get32 bytes 36, rawSize := get32 bytes 40
      frameSpan := get32 bytes 44, minTimeNs := geti64 bytes 48, maxTimeNs := geti64 bytes 56
      compression := ⟨get16 bytes 64⟩, compressionVersion := get16 bytes 66
      payloadCrc := get32 bytes 68, slot := get32 bytes 76
      volumeIdLow := get64 bytes 80, volumeIdHigh := get64 bytes 88
      writerIdHigh := get64 bytes 96, writerIdLow := get64 bytes 104
      previousWriterIdHigh := get64 bytes 112, previousWriterIdLow := get64 bytes 120 }
  if ¬ h.inBounds then failWith .corrupt "invalid block bounds" else .ok h

/-! ## Index -/

def indexEntryFields (e : IndexEntry) : List (Nat × Bytes) :=
  [(0, put64 e.offset), (8, put32 e.frameSize), (12, put32 e.frameSpan), (16, put32 e.sequence),
   (20, put32 e.recordCount), (24, puti64 e.minTimeNs), (32, puti64 e.maxTimeNs),
   (40, put32 e.flags), (44, put32 e.rawSize)]

def encodeIndexEntry (e : IndexEntry) : Bytes := layout indexEntryEncodedSize 0 (indexEntryFields e)

def IndexEntry.inBounds (e : IndexEntry) : Bool :=
  ! (decide (e.frameSize < 128) || decide (e.frameSize > e.frameSpan) || e.recordCount == 0 ||
     decide (e.minTimeNs > e.maxTimeNs))

/-- One entry of a time index; the writer ID is not stored. -/
def decodeIndexEntry (bytes : Bytes) : Except Status IndexEntry :=
  if bytes.length < indexEntryEncodedSize then failWith .corrupt "truncated index entry"
  else
    let e : IndexEntry :=
      { offset := get64 bytes 0, frameSize := get32 bytes 8, frameSpan := get32 bytes 12
        sequence := get32 bytes 16, recordCount := get32 bytes 20, minTimeNs := geti64 bytes 24
        maxTimeNs := geti64 bytes 32, flags := get32 bytes 40, rawSize := get32 bytes 44 }
    if ¬ e.inBounds then failWith .corrupt "invalid index entry" else .ok e

/-- The entries, one behind the other. -/
def encodeIndex (entries : List IndexEntry) : Bytes := entries.flatMap encodeIndexEntry

/-- The loop of the index decoder, `n` entries long. -/
def decodeEntries : Nat → Bytes → Except Status (List IndexEntry)
  | 0, _ => .ok []
  | n + 1, bytes => do
    let e ← decodeIndexEntry (bytes.take indexEntryEncodedSize)
    let es ← decodeEntries n (bytes.drop indexEntryEncodedSize)
    .ok (e :: es)

/-- The entries of an index whose size is a multiple of theirs. -/
def decodeIndex (bytes : Bytes) : Except Status (List IndexEntry) :=
  if bytes.length % indexEntryEncodedSize ≠ 0 then failWith .corrupt "invalid index length"
  else decodeEntries (bytes.length / indexEntryEncodedSize) bytes

/-! ## Partition footer -/

def partitionFooterFields (f : PartitionFooter) : List (Nat × Bytes) :=
  commonFields footerMagic partitionFooterEncodedSize ++
  [(16, put64 f.volumeIdHigh), (24, put64 f.volumeIdLow), (32, put64 f.generation),
   (40, put32 f.slot), (44, put32 f.flags), (48, put32 f.blockCount), (52, put32 48),
   (56, put64 f.indexOffset), (64, put32 f.indexSize), (72, put64 f.dataEnd),
   (80, puti64 f.minTimeNs), (88, puti64 f.maxTimeNs), (96, put32 f.indexCrc)]

def encodePartitionFooter (f : PartitionFooter) : Bytes :=
  finishCrc (layout partitionFooterEncodedSize 0 (partitionFooterFields f)) 100

/-- A footer whose index size agrees with its block count. -/
def decodePartitionFooter (bytes : Bytes) : Except Status PartitionFooter := do
  commonCheck bytes footerMagic partitionFooterEncodedSize 100
  if ¬ allZero bytes 68 4 ∨ ¬ allZero bytes 104 (partitionFooterEncodedSize - 104) then
    failWith .corrupt "footer reserved bytes are nonzero"
  else if get32 bytes 52 ≠ 48 then failWith .unsupported "unsupported index entry size"
  else
    let f : PartitionFooter :=
      { volumeIdHigh := get64 bytes 16, volumeIdLow := get64 bytes 24
        generation := get64 bytes 32, slot := get32 bytes 40, flags := get32 bytes 44
        blockCount := get32 bytes 48, indexOffset := get64 bytes 56
        indexSize := get32 bytes 64, dataEnd := get64 bytes 72
        minTimeNs := geti64 bytes 80, maxTimeNs := geti64 bytes 88, indexCrc := get32 bytes 96 }
    if f.indexSize.toNat ≠ f.blockCount.toNat * indexEntryEncodedSize ∨
        (f.blockCount ≠ 0 ∧ f.minTimeNs > f.maxTimeNs) then
      failWith .corrupt "invalid footer bounds"
    else .ok f

end TFDB
