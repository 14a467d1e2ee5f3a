import TFDB.RustCodec
import TFDB.Decoders
import TFDB.Reader

/-!
# The Rust reader

`Reader` opens a volume and delivers its blocks as the C++ store does for a read-only client, with
recovery, index checks and block checks of its own.

* `Rust.Reader.fromFileWithSize` — the two copies of the volume header, and the recovery of every
  slot;
* `Rust.scanPartition`, `Rust.loadIndex` — the blocks of a partition, from its data or its index;
* `Rust.Reader.readBlock`, `Rust.Reader.visitBlocks` — one block, and the events of a call.

A file is what a positional read of it returns.  Checked arithmetic is over numbers below `2 ^ 64`.
Of the sums that the source leaves unchecked the geometry bounds all but `128 + max_block_payload`
in `load_index`; that one wraps, as in a release build, where a debug build panics.  Memory is taken
to suffice for the raw size of a block.
-/

set_option autoImplicit false

namespace TFDB.Rust

open ByteLib

/-! ## Files -/

/-- What `read_vec` returns for an offset and a size. -/
abbrev File := Nat → Nat → Except Error Bytes

/-- A file with the bytes of an image. -/
def fileOf (m : Image) : File := fun offset size =>
  if size ≠ 0 ∧ offset + size > m.size then .error ⟨.io, "short TFDB read"⟩
  else .ok (m.window offset size)

/-- `read_decode`: read a structure and decode it. -/
def readDecode {α : Type} (file : File) (offset size : Nat) (decoder : Bytes → Except Error α) :
    Except Error α := do
  let bytes ← file offset size
  decoder bytes

/-- A checked operation on 64-bit numbers. -/
def checked (value : Nat) (message : String) : Except Error Nat :=
  if value < 2 ^ 64 then .ok value else Error.corrupt message

/-- Where a slot begins in the volume. -/
def partitionBase (volume : VolumeHeader) (slot : UInt32) : Except Error Nat := do
  let product ← checked (slot.toNat * volume.partitionSize.toNat)
    "partition offset multiplication overflow"
  checked (volumePrefixSize + product) "partition offset overflow"

/-- Where the index region begins in a partition. -/
def indexBegin (volume : VolumeHeader) : Except Error Nat :=
  if volume.partitionSize.toNat < partitionFooterRegionSize + volume.indexRegionSize.toNat then
    Error.corrupt "invalid partition reserved regions"
  else .ok (volume.partitionSize.toNat - partitionFooterRegionSize - volume.indexRegionSize.toNat)

/-- `align_up` -/
def alignUp (value : Nat) (quantum : UInt32) : Option Nat :=
  if quantum = 0 then none
  else if value % quantum.toNat = 0 then some value
  else
    let sum := value + (quantum.toNat - value % quantum.toNat)
    if sum < 2 ^ 64 then some sum else none

/-! ## Validation -/

def validateVolumeGeometry (volume : VolumeHeader) (backendSize : Nat) : Except Error Unit := do
  let quantum := volume.persistenceQuantum.toNat
  if volume.volumeSize.toNat < volumePrefixSize ∨ volume.volumeSize.toNat > backendSize ∨
      quantum = 0 ∨ ¬ isPowerOfTwo volume.persistenceQuantum ∨ quantum > 4096 ∨
      volumePrefixSize % quantum ≠ 0 ∨ partitionHeaderRegionSize % quantum ≠ 0 ∨
      volume.partitionSize.toNat % quantum ≠ 0 ∨ volume.indexRegionSize.toNat % quantum ≠ 0 ∨
      volume.indexRegionSize.toNat < indexEntryEncodedSize then
    Error.corrupt "invalid volume geometry/alignment"
  else
    let fixed ← checked
      (partitionHeaderRegionSize + partitionFooterRegionSize + volume.indexRegionSize.toNat)
      "volume fixed-region size overflow"
    if fixed ≥ volume.partitionSize.toNat ∨ volume.partitionSize.toNat - fixed < quantum then
      Error.corrupt "partition data region is too small"
    else
      let product ← checked (volume.partitionCount.toNat * volume.partitionSize.toNat)
        "volume partition geometry overflow"
      let occupied ← checked (product + volumePrefixSize) "volume partition geometry overflow"
      if occupied > volume.volumeSize.toNat then
        Error.corrupt "partitions exceed recorded volume size"
      else
        match alignUp (blockHeaderEncodedSize + volume.maxBlockPayload.toNat)
            volume.persistenceQuantum with
        | none => Error.corrupt "maximum block span overflow"
        | some maximumSpan =>
          if maximumSpan > volume.partitionSize.toNat - fixed then
            Error.corrupt "maximum block cannot fit partition"
          else .ok ()

/-- The loop over the features; the flag is `saw_time_index`. -/
def validateFeatures (volume : VolumeHeader) (expectedIndex : Nat) :
    Bool → List FeatureDescriptor → Except Error Bool
  | saw, [] => .ok saw
  | saw, f :: fs => do
    let last ← checked (f.regionOffset.toNat + f.regionLength.toNat) "feature region overflow"
    if last > volume.partitionSize.toNat then Error.corrupt "feature region outside partition"
    else if f.kind = 2 then
      if f.regionOffset.toNat ≠ expectedIndex ∨
          f.regionLength.toNat ≠ volume.indexRegionSize.toNat then
        Error.corrupt "time-index region mismatch"
      else validateFeatures volume expectedIndex true fs
    else if ¬ (f.kind = 1 ∨ f.kind = 3 ∨ f.kind = 4) ∧ f.regionLength ≠ 0 then
      Error.unsupported "unknown feature reserves media space"
    else validateFeatures volume expectedIndex saw fs

/-- The checks of a decoded partition header against the volume and the slot. -/
def validatePartitionHeader (volume : VolumeHeader) (slot : UInt32) (header : PartitionHeader) :
    Except Error Unit := do
  if header.volumeIdHigh ≠ volume.volumeIdHigh ∨ header.volumeIdLow ≠ volume.volumeIdLow ∨
      header.slot ≠ slot ∨ header.generation = 0 ∨
      header.maxBlockPayload ≠ volume.maxBlockPayload ∨
      header.persistenceQuantum ≠ volume.persistenceQuantum ∨ header.timeDomainId = 0 then
    Error.corrupt "partition identity/geometry mismatch"
  else if ¬ ((header.compressionId = 0 ∨ header.compressionId = 1 ∨ header.compressionId = 2) ∧
      header.compressionVersion = 1) then
    Error.unsupported "partition compression codec/version unavailable"
  else
    let expectedIndex ← indexBegin volume
    let saw ← validateFeatures volume expectedIndex false header.features
    if ¬ saw then Error.corrupt "missing time-index feature" else .ok ()

/-- The checks of a decoded footer against the header of its partition. -/
def validateFooter (volume : VolumeHeader) (header : PartitionHeader) (footer : PartitionFooter) :
    Except Error Unit := do
  let index ← indexBegin volume
  if footer.volumeIdHigh ≠ volume.volumeIdHigh ∨ footer.volumeIdLow ≠ volume.volumeIdLow ∨
      footer.slot ≠ header.slot ∨ footer.generation ≠ header.generation ∨
      footer.indexOffset.toNat ≠ index ∨
      footer.indexSize.toNat > volume.indexRegionSize.toNat ∨
      footer.dataEnd.toNat < partitionHeaderRegionSize ∨ footer.dataEnd.toNat > index ∨
      footer.dataEnd.toNat % volume.persistenceQuantum.toNat ≠ 0 ∨
      footer.indexSize.toNat ≠ footer.blockCount.toNat * indexEntryEncodedSize ∨
      (footer.blockCount = 0 ∧ footer.dataEnd.toNat ≠ partitionHeaderRegionSize) ∨
      (footer.blockCount ≠ 0 ∧ footer.minTimeNs > footer.maxTimeNs) then
    Error.corrupt "partition footer identity/bounds mismatch"
  else .ok ()

/-- `partition_has_current_volume_evidence` -/
def partitionHasCurrentVolumeEvidence (file : File) (volume : VolumeHeader) (slot : UInt32)
    (rawHeader : Bytes) : Except Error Bool := do
  if rawHeader.all (· == 0) then .ok false
  else if slice rawHeader 0 8 = partitionMagic ∧ rawHeader.length ≥ 32 ∧
      get64 rawHeader 16 = volume.volumeIdHigh ∧ get64 rawHeader 24 = volume.volumeIdLow then
    .ok true
  else
    let base ← partitionBase volume slot
    let footerBytes ← file (base + volume.partitionSize.toNat - partitionFooterRegionSize)
      partitionFooterEncodedSize
    let sealedHere := match decodeFooter footerBytes with
      | .ok footer => footer.slot == slot && footer.volumeIdHigh == volume.volumeIdHigh &&
          footer.volumeIdLow == volume.volumeIdLow
      | .error _ => false
    if sealedHere then .ok true
    else
      let blockBytes ← file (base + partitionHeaderRegionSize) blockHeaderEncodedSize
      match decodeBlockHeader blockBytes with
      | .ok block => .ok (block.slot == slot && block.volumeIdHigh == volume.volumeIdHigh &&
          block.volumeIdLow == volume.volumeIdLow)
      | .error _ => .ok false

/-! ## Blocks and indexes -/

/-- What a scan of a partition found. -/
structure ScanResult where
  entries : List IndexEntry
  dataEnd : Nat
  stoppedOnCorruption : Bool

/-- Where a scan stands. -/
structure Cursor where
  cursor : Nat := partitionHeaderRegionSize
  expectedSequence : UInt32 := 0
  expectedWriter : UInt64 × UInt64 := (0, 0)
  entries : List IndexEntry := []

/-- The result of a scan that ends here. -/
def Cursor.stop (c : Cursor) (stopped : Bool) : ScanResult := ⟨c.entries, c.cursor, stopped⟩

/-- The checks of the scan on a decoded block header. -/
def blockValid (volume : VolumeHeader) (header : PartitionHeader) (limit : Nat) (c : Cursor)
    (block : BlockHeader) : Bool :=
  block.generation == header.generation && block.slot == header.slot &&
  block.volumeIdHigh == volume.volumeIdHigh && block.volumeIdLow == volume.volumeIdLow &&
  (block.previousWriterIdHigh, block.previousWriterIdLow) == c.expectedWriter &&
  block.sequence == c.expectedSequence && block.recordCount != 0 &&
  decide (block.minTimeNs ≤ block.maxTimeNs) &&
  decide (block.storedSize ≤ volume.maxBlockPayload) &&
  decide (block.rawSize ≤ volume.maxBlockPayload) &&
  (if block.compression.value = 0 then
      block.compressionVersion == 1 && block.storedSize == block.rawSize
    else block.compression.value == header.compressionId &&
      block.compressionVersion == header.compressionVersion) &&
  block.frameSpan % volume.persistenceQuantum == 0 &&
  c.cursor % volume.persistenceQuantum.toNat == 0 &&
  decide (block.frameSpan.toNat ≤ limit - c.cursor) &&
  alignUp (blockHeaderEncodedSize + block.storedSize.toNat) volume.persistenceQuantum ==
    some block.frameSpan.toNat

/-- The loop of `scan_partition`; a turn moves the cursor forward, so `limit + 1` turns suffice. -/
def scanLoop (file : File) (volume : VolumeHeader) (header : PartitionHeader) (base limit : Nat) :
    Nat → Cursor → Except Error ScanResult
  | 0, c => .ok (c.stop false)
  | steps + 1, c =>
    if c.cursor + blockHeaderEncodedSize ≤ limit then do
      let raw ← file (base + c.cursor) blockHeaderEncodedSize
      match decodeBlockHeader raw with
      | .error _ => .ok (c.stop true)
      | .ok block =>
        if ¬ blockValid volume header limit c block then .ok (c.stop true)
        else do
          let stored ← file (base + c.cursor + blockHeaderEncodedSize) block.storedSize.toNat
          if crc32c stored ≠ block.payloadCrc then .ok (c.stop true)
          else
            let entry : IndexEntry :=
              { offset := UInt64.ofNat c.cursor, frameSize := 128 + block.storedSize
                frameSpan := block.frameSpan, sequence := block.sequence
                recordCount := block.recordCount, minTimeNs := block.minTimeNs
                maxTimeNs := block.maxTimeNs, flags := block.flags, rawSize := block.rawSize
                writerIdHigh := block.writerIdHigh, writerIdLow := block.writerIdLow }
            let next : Cursor :=
              { cursor := c.cursor + block.frameSpan.toNat
                expectedSequence := c.expectedSequence + 1
                expectedWriter := (block.writerIdHigh, block.writerIdLow)
                entries := c.entries ++ [entry] }
            if c.expectedSequence = 0xffffffff then Error.corrupt "block sequence overflow"
            else scanLoop file volume header base limit steps next
    else .ok (c.stop false)

/-- `scan_partition`: the chain of blocks from the header up to `limit`. -/
def scanPartition (file : File) (volume : VolumeHeader) (header : PartitionHeader) (limit : Nat) :
    Except Error ScanResult := do
  let indexLimit ← indexBegin volume
  if limit < partitionHeaderRegionSize ∨ limit > indexLimit then
    Error.corrupt "partition scan limit outside data region"
  else
    let base ← partitionBase volume header.slot
    scanLoop file volume header base limit (limit + 1) {}

/-- Flags and times of a list of entries. -/
def summarize : List IndexEntry → UInt32 × Int64 × Int64
  | [] => (0, 0, 0)
  | first :: rest =>
    (first :: rest).foldl (fun a e => (a.1 ||| e.flags, min a.2.1 e.minTimeNs, max a.2.2 e.maxTimeNs))
      (0, first.minTimeNs, first.maxTimeNs)

/-- The chunks of an index, decoded. -/
def decodeChunks : Nat → Bytes → Except Error (List IndexEntry)
  | 0, _ => .ok []
  | n + 1, bytes => do
    let entry ← decodeIndexEntry (bytes.take indexEntryEncodedSize)
    let entries ← decodeChunks n (bytes.drop indexEntryEncodedSize)
    .ok (entry :: entries)

/-- The loop over the decoded entries; returns the end of the last frame.  The bound of a frame is a
32-bit sum. -/
def checkChain (volume : VolumeHeader) (index : Nat) :
    Nat → Nat → List IndexEntry → Except Error Nat
  | _, expectedOffset, [] => .ok expectedOffset
  | sequence, expectedOffset, entry :: entries =>
    if entry.sequence.toNat ≠ sequence ∨ entry.offset.toNat ≠ expectedOffset ∨
        entry.recordCount = 0 ∨ entry.minTimeNs > entry.maxTimeNs ∨ entry.frameSize < 128 ∨
        entry.frameSize > 128 + volume.maxBlockPayload ∨ entry.rawSize > volume.maxBlockPayload ∨
        entry.frameSpan % volume.persistenceQuantum ≠ 0 ∨
        (index < entry.offset.toNat ∨ entry.frameSpan.toNat > index - entry.offset.toNat) ∨
        alignUp entry.frameSize.toNat volume.persistenceQuantum ≠ some entry.frameSpan.toNat then
      Error.corrupt "partition time-index sequence/bounds mismatch"
    else do
      let next ← checked (expectedOffset + entry.frameSpan.toNat) "time-index offset overflow"
      checkChain volume index (sequence + 1) next entries

/-- `load_index`: the index of a sealed partition, checked against its footer. -/
def loadIndex (file : File) (volume : VolumeHeader) (header : PartitionHeader)
    (footer : PartitionFooter) : Except Error (List IndexEntry) := do
  if footer.indexSize = 0 then
    if footer.blockCount ≠ 0 then Error.corrupt "empty index has blocks" else .ok []
  else
    let base ← partitionBase volume header.slot
    let bytes ← file (base + footer.indexOffset.toNat) footer.indexSize.toNat
    if crc32c bytes ≠ footer.indexCrc then Error.corrupt "partition time-index CRC mismatch"
    else
      let entries ← decodeChunks (bytes.length / indexEntryEncodedSize) bytes
      if entries.length ≠ footer.blockCount.toNat then
        Error.corrupt "partition time-index count mismatch"
      else
        let index ← indexBegin volume
        let last ← checkChain volume index 0 partitionHeaderRegionSize entries
        if last ≠ footer.dataEnd.toNat then
          Error.corrupt "partition time-index data end mismatch"
        else
          let summary := summarize entries
          if summary.1 ≠ footer.flags ∨ summary.2.1 ≠ footer.minTimeNs ∨
              summary.2.2 ≠ footer.maxTimeNs then
            Error.corrupt "partition footer summary disagrees with index"
          else .ok entries

/-- `validate_block_against_entry`; the sum is a 32-bit one. -/
def validateBlockAgainstEntry (volume : VolumeHeader) (partition : PartitionHeader)
    (block : BlockHeader) (entry : IndexEntry) : Except Error Unit :=
  let identityOk := block.generation == partition.generation && block.slot == partition.slot &&
    block.volumeIdHigh == volume.volumeIdHigh && block.volumeIdLow == volume.volumeIdLow &&
    block.sequence == entry.sequence &&
    ((entry.writerIdHigh == 0 && entry.writerIdLow == 0) ||
      (block.writerIdHigh == entry.writerIdHigh && block.writerIdLow == entry.writerIdLow))
  let metadataOk := 128 + block.storedSize == entry.frameSize &&
    block.frameSpan == entry.frameSpan && decide (block.rawSize ≤ volume.maxBlockPayload) &&
    decide (block.storedSize ≤ volume.maxBlockPayload) && block.recordCount == entry.recordCount &&
    block.rawSize == entry.rawSize && block.minTimeNs == entry.minTimeNs &&
    block.maxTimeNs == entry.maxTimeNs && block.flags == entry.flags &&
    ((block.compression.value == 0 && block.compressionVersion == 1 &&
        block.storedSize == block.rawSize) ||
      (block.compression.value == partition.compressionId &&
        block.compressionVersion == partition.compressionVersion))
  let spanOk := alignUp (blockHeaderEncodedSize + block.storedSize.toNat)
    volume.persistenceQuantum == some block.frameSpan.toNat
  if ¬ identityOk ∨ ¬ metadataOk ∨ ¬ spanOk then
    Error.corrupt "block metadata disagrees with partition/index"
  else .ok ()

/-! ## Partitions -/

/-- Why a block or a partition is missing. -/
inductive GapKind
  | corrupt | overwritten
  deriving DecidableEq, Repr

/-- A gap as the visitor gets it. -/
structure Gap where
  kind : GapKind
  partitionSlot : UInt32
  partitionGeneration : UInt64
  blockSequence : Option UInt32
  message : String
  deriving DecidableEq

/-- What the visitor gets. -/
inductive Event
  | data (metadata : BlockMetadata) (data : Bytes)
  | gap (gap : Gap)
  deriving DecidableEq

/-- The snapshot of a partition. -/
structure PartitionState where
  header : PartitionHeader
  footer : Option PartitionFooter
  activeEntries : List IndexEntry
  dataEnd : Nat
  blockCount : UInt32
  minTimeNs : Int64
  maxTimeNs : Int64
  flags : UInt32

/-- A reader: the snapshot of a volume, and the gaps of slots with damaged headers. -/
structure Reader where
  file : File
  backendSize : Nat
  volume : VolumeHeader
  partitions : List PartitionState
  headerGaps : List Gap

/-- What a slot turned out to hold. -/
inductive SlotHeader
  | empty
  | damaged (gap : Gap)
  | valid (header : PartitionHeader)

section
variable (file : File) (volume : VolumeHeader)

/-- The header part of a turn of the recovery loop. -/
def openHeader (slot : UInt32) : Except Error SlotHeader := do
  let base ← partitionBase volume slot
  let raw ← file base partitionHeaderEncodedSize
  let decoded := do
    let header ← decodePartitionHeader raw
    validatePartitionHeader volume slot header
    .ok header
  match decoded with
  | .ok header => .ok (.valid header)
  | .error error =>
    let evidence ← partitionHasCurrentVolumeEvidence file volume slot raw
    if evidence then
      if error.kind = .unsupported then .error error
      else .ok (.damaged
        { kind := .corrupt, partitionSlot := slot, partitionGeneration := 0
          blockSequence := none, message := "partition header is damaged" })
    else .ok .empty

/-- The footer of a partition, or nothing where it is corrupt. -/
def openFooter (header : PartitionHeader) : Except Error (Option PartitionFooter) := do
  let base ← partitionBase volume header.slot
  let footerOffset ← checked (base + (volume.partitionSize.toNat - partitionFooterRegionSize))
    "partition footer offset overflow"
  let result := do
    let footer ← readDecode file footerOffset partitionFooterEncodedSize decodeFooter
    validateFooter volume header footer
    .ok footer
  match result with
  | .ok footer => .ok (some footer)
  | .error error => if error.kind = .corrupt then .ok none else .error error

/-- The state of a partition with a valid header. -/
def openPartition (header : PartitionHeader) : Except Error PartitionState := do
  match ← openFooter file volume header with
  | some footer =>
    .ok
      { header := header, footer := some footer, activeEntries := []
        dataEnd := footer.dataEnd.toNat, blockCount := footer.blockCount
        minTimeNs := footer.minTimeNs, maxTimeNs := footer.maxTimeNs, flags := footer.flags }
  | none =>
    let index ← indexBegin volume
    let scan ← scanPartition file volume header index
    let summary := summarize scan.entries
    if scan.entries.length ≥ 2 ^ 32 then Error.corrupt "block count exceeds u32"
    else
      .ok
        { header := header, footer := none, activeEntries := scan.entries
          dataEnd := scan.dataEnd, blockCount := UInt32.ofNat scan.entries.length
          minTimeNs := summary.2.1, maxTimeNs := summary.2.2, flags := summary.1 }

/-- The recovery loop: the partitions and the gaps of the slots so far. -/
def openSlots : List UInt32 → List PartitionState → List Gap →
    Except Error (List PartitionState × List Gap)
  | [], partitions, gaps => .ok (partitions, gaps)
  | slot :: slots, partitions, gaps => do
    match ← openHeader file volume slot with
    | .empty => openSlots slots partitions gaps
    | .damaged gap => openSlots slots partitions (gaps ++ [gap])
    | .valid header =>
      if partitions.any fun p => p.header.generation == header.generation then
        Error.corrupt "duplicate partition generation"
      else
        let p ← openPartition file volume header
        openSlots slots (partitions ++ [p]) gaps

end

/-! ## The reader -/

/-- Which of the two copies to use. -/
def selectVolumeHeader (first second : Except Error VolumeHeader) : Except Error VolumeHeader :=
  match first, second with
  | .ok a, .ok b =>
    if a ≠ b then Error.corrupt "valid volume header copies disagree" else .ok a
  | .ok a, .error _ => .ok a
  | .error _, .ok b => .ok b
  | .error a, .error b =>
    if a.kind = .unsupported then .error a
    else if b.kind = .unsupported then .error b
    else if a.kind = .io then .error a
    else if b.kind = .io then .error b
    else Error.corrupt "both volume headers are invalid"

namespace Reader

/-- `from_file_with_size`: the volume header, its geometry, and the recovery of every slot. -/
def fromFileWithSize (file : File) (backendSize : Nat) : Except Error Reader := do
  let volume ← selectVolumeHeader
    (readDecode file 0 volumeHeaderEncodedSize decodeVolumeHeader)
    (readDecode file volumeHeaderCopySize volumeHeaderEncodedSize decodeVolumeHeader)
  validateVolumeGeometry volume backendSize
  let slots := (List.range volume.partitionCount.toNat).map UInt32.ofNat
  let (partitions, gaps) ← openSlots file volume slots [] []
  .ok
    { file := file, backendSize := backendSize, volume := volume
      partitions := partitions.mergeSort fun a b => decide (a.header.generation ≤ b.header.generation)
      headerGaps := gaps }

variable (r : Reader)

/-- The header that the slot carries now. -/
def readCurrentPartitionHeader (slot : UInt32) : Except Error PartitionHeader := do
  let base ← partitionBase r.volume slot
  let bytes ← r.file base partitionHeaderEncodedSize
  let header ← decodePartitionHeader bytes
  validatePartitionHeader r.volume slot header
  .ok header

/-- A failure is an overwrite if the slot has changed hands, else the one at hand. -/
def classifySnapshotFailure {α : Type} (state : PartitionState) (fallback : Error) : Except Error α :=
  match r.readCurrentPartitionHeader state.header.slot with
  | .ok header =>
    if header.generation ≠ state.header.generation then
      .error ⟨.overwritten, "partition changed while reading block"⟩
    else .error fallback
  | .error _ => .error fallback

/-- The payload of a block, decompressed; `none` is a panic. -/
def decodeStored (block : BlockHeader) (stored : Bytes) : Option (Except Error Bytes) :=
  if block.compression.value = 0 then
    if block.compressionVersion ≠ 1 ∨ block.storedSize ≠ block.rawSize then
      some (Error.corrupt "invalid uncompressed block sizes/version")
    else some (.ok stored)
  else if block.compression.value = 1 ∧ block.compressionVersion = 1 then
    decompressPackbits ample stored block.rawSize.toNat
  else if block.compression.value = 2 ∧ block.compressionVersion = 1 then
    decompressLz4Block ample stored block.rawSize.toNat
  else some (Error.unsupported "block compression codec/version unavailable")

/-- What the visitor learns about a block. -/
def metadataOf (state : PartitionState) (physicalOffset : Nat) (block : BlockHeader) :
    BlockMetadata where
  partitionSlot := state.header.slot
  partitionGeneration := state.header.generation
  blockSequence := block.sequence
  recordCount := block.recordCount
  minTimeNs := block.minTimeNs
  maxTimeNs := block.maxTimeNs
  flags := block.flags
  compression := block.compression
  storedSize := block.storedSize
  rawSize := block.rawSize
  physicalOffset := physicalOffset
  recordFormatId := state.header.recordFormatId
  recordFormatVersion := state.header.recordFormatVersion
  timeDomainId := state.header.timeDomainId

/-- A panic of a decompressor, as an error no other path has. -/
def unwrap {α : Type} : Option (Except Error α) → Except Error α
  | some outcome => outcome
  | none => .error ⟨.invalidArgument, "panic"⟩

/-- `read_block`: a block between two reads of its partition header, and its payload decoded. -/
def readBlock (state : PartitionState) (entry : IndexEntry) : Except Error (BlockMetadata × Bytes) :=
  match r.readCurrentPartitionHeader state.header.slot with
  | .error error => r.classifySnapshotFailure state error
  | .ok before =>
    if before.generation ≠ state.header.generation then
      .error ⟨.overwritten, "partition changed before block read"⟩
    else do
      let base ← partitionBase r.volume state.header.slot
      let physicalOffset ← checked (base + entry.offset.toNat) "block physical offset overflow"
      let rawHeader ← r.file physicalOffset blockHeaderEncodedSize
      match decodeBlockHeader rawHeader with
      | .error error => r.classifySnapshotFailure state error
      | .ok block =>
        match validateBlockAgainstEntry r.volume state.header block entry with
        | .error error => r.classifySnapshotFailure state error
        | .ok () => do
          let payloadOffset ← checked (physicalOffset + blockHeaderEncodedSize)
            "block payload offset overflow"
          let stored ← r.file payloadOffset block.storedSize.toNat
          match r.readCurrentPartitionHeader state.header.slot with
          | .error error => r.classifySnapshotFailure state error
          | .ok after =>
            if after.generation ≠ state.header.generation then
              .error ⟨.overwritten, "partition changed while reading block payload"⟩
            else if crc32c stored ≠ block.payloadCrc then
              r.classifySnapshotFailure state ⟨.corrupt, "block payload CRC mismatch"⟩
            else do
              let data ← unwrap (decodeStored block stored)
              .ok (metadataOf state physicalOffset block, data)

/-- The entries of a partition, and the gap of an index that had to be rebuilt. -/
def acquireEntries (state : PartitionState) : Except Error (List IndexEntry × Option Gap) :=
  match state.footer with
  | none => .ok (state.activeEntries, none)
  | some footer =>
    match loadIndex r.file r.volume state.header footer with
    | .ok entries => .ok (entries, none)
    | .error error =>
      if error.kind = .corrupt then do
        let scan ← scanPartition r.file r.volume state.header footer.dataEnd.toNat
        let complete := ¬ scan.stoppedOnCorruption ∧ scan.dataEnd = footer.dataEnd.toNat ∧
          scan.entries.length = footer.blockCount.toNat
        let message :=
          if complete then "sealed time index is invalid and was rebuilt: " ++ error.message
          else "sealed partition has an invalid data/index prefix"
        .ok (scan.entries, some
          { kind := .corrupt, partitionSlot := state.header.slot
            partitionGeneration := state.header.generation, blockSequence := none
            message := message })
      else .error error

/-! ## Events

A visitor sees the events delivered so far and says whether to go on.  A call that ends has
`some` result beside the events. -/

/-- Deliver an event. -/
def visit (visitor : List Event → Bool) (events : List Event) (ev : Event) :
    List Event × Option (Except Error Unit) :=
  (events ++ [ev], if visitor (events ++ [ev]) then none else some (.ok ()))

/-- The gap for a block that could not be read. -/
def blockGap (state : PartitionState) (entry : IndexEntry) (error : Error) : Gap where
  kind := if error.kind = .overwritten then .overwritten else .corrupt
  partitionSlot := state.header.slot
  partitionGeneration := state.header.generation
  blockSequence := some entry.sequence
  message := error.message

/-- The entry does not intersect the range. -/
def skipsEntry (range : Option TimeRange) (entry : IndexEntry) : Bool :=
  match range with
  | some range => ! rangesIntersect entry.minTimeNs entry.maxTimeNs range
  | none => false

/-- The partition is of another time domain. -/
def skipsPartition (range : Option TimeRange) (state : PartitionState) : Bool :=
  match range with
  | some range => state.header.timeDomainId != range.timeDomainId
  | none => false

/-- The blocks of one partition. -/
def visitEntries (range : Option TimeRange) (visitor : List Event → Bool) (state : PartitionState) :
    List IndexEntry → List Event → List Event × Option (Except Error Unit)
  | [], events => (events, none)
  | entry :: entries, events =>
    if skipsEntry range entry then visitEntries range visitor state entries events
    else
      match r.readBlock state entry with
      | .ok (metadata, data) =>
        match visit visitor events (.data metadata data) with
        | (events, some result) => (events, some result)
        | (events, none) => visitEntries range visitor state entries events
      | .error error =>
        match visit visitor events (.gap (blockGap state entry error)) with
        | (events, some result) => (events, some result)
        | (events, none) =>
          if error.kind = .overwritten then (events, none)
          else visitEntries range visitor state entries events

/-- One partition: its entries, then its blocks. -/
def visitPartition (range : Option TimeRange) (visitor : List Event → Bool) (state : PartitionState)
    (events : List Event) : List Event × Option (Except Error Unit) :=
  if skipsPartition range state then (events, none)
  else
    match r.acquireEntries state with
    | .error error => (events, some (.error error))
    | .ok (entries, none) => r.visitEntries range visitor state entries events
    | .ok (entries, some gap) =>
      match visit visitor events (.gap gap) with
      | (events, some result) => (events, some result)
      | (events, none) => r.visitEntries range visitor state entries events

/-- The partitions, in order of their generations. -/
def visitPartitions (range : Option TimeRange) (visitor : List Event → Bool) :
    List PartitionState → List Event → List Event × Except Error Unit
  | [], events => (events, .ok ())
  | state :: states, events =>
    match r.visitPartition range visitor state events with
    | (events, some result) => (events, result)
    | (events, none) => visitPartitions range visitor states events

/-- The gaps of the damaged headers, in order of their slots. -/
def visitGaps (visitor : List Event → Bool) :
    List Gap → List Event → List Event × Option (Except Error Unit)
  | [], events => (events, none)
  | gap :: gaps, events =>
    match visit visitor events (.gap gap) with
    | (events, some result) => (events, some result)
    | (events, none) => visitGaps visitor gaps events

/-- `visit_blocks`: the gaps, then the partitions. -/
def visitBlocks (range : Option TimeRange) (visitor : List Event → Bool) :
    List Event × Except Error Unit :=
  match visitGaps visitor r.headerGaps [] with
  | (events, some result) => (events, result)
  | (events, none) => r.visitPartitions range visitor r.partitions events

/-- Every readable block. -/
def scanBlocks (visitor : List Event → Bool) : List Event × Except Error Unit :=
  r.visitBlocks none visitor

/-- The blocks of a time domain that meet a half-open range. -/
def queryBlocks (range : TimeRange) (visitor : List Event → Bool) : List Event × Except Error Unit :=
  if range.endNs ≤ range.beginNs then
    ([], .error ⟨.invalidArgument, "time range must be nonempty [begin,end)"⟩)
  else if range.timeDomainId = 0 then
    ([], .error ⟨.invalidArgument, "time-domain zero is reserved for physical scans"⟩)
  else r.visitBlocks (some range) visitor

end Reader

end TFDB.Rust
