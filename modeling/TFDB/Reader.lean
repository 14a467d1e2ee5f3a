import TFDB.Store

/-!
# Reading

The functions of `RingStore::Impl` that read the medium, as reading programs: partition
headers, footers, the block scan, the sealed index, one block, and `query`.

A scan visits frames until one fails a check; the stop is not an error.  `query` hands every
event to the visitor, which is a function of the events delivered so far and says whether to
go on.
-/

set_option autoImplicit false

namespace TFDB

open ByteLib

variable (env : Env)

/-! ## Partition headers and footers -/

/-- The feature regions of a decoded header lie where this volume expects them. -/
def checkFeatures : List FeatureDescriptor → Except Status Unit
  | [] => .ok ()
  | f :: fs =>
    if f.regionOffset.toNat > env.partitionSize ∨
        f.regionLength.toNat > env.partitionSize - f.regionOffset.toNat then
      failWith .corrupt "feature region outside partition"
    else if f.kind = featureTimeIndex ∧
        (f.regionOffset.toNat ≠ env.indexBegin ∨ f.regionLength.toNat ≠ env.indexRegionSize) then
      failWith .corrupt "time-index region mismatch"
    else if f.kind ≠ featureCompression ∧ f.kind ≠ featureTimeIndex ∧
        f.kind ≠ featureRecordProfile ∧ f.kind ≠ featureIntegrity ∧ f.regionLength ≠ 0 then
      failWith .unsupported "unknown feature reserves media space"
    else checkFeatures fs

/-- The checks of `read_partition_header` on the bytes it read. -/
def acceptPartitionHeader (slot : UInt32) (bytes : Bytes) : Except Status PartitionHeader := do
  let h ← decodePartitionHeader bytes
  if h.volumeIdHigh ≠ env.volume.volumeIdHigh ∨ h.volumeIdLow ≠ env.volume.volumeIdLow ∨
      h.slot ≠ slot ∨ h.maxBlockPayload ≠ env.volume.maxBlockPayload ∨
      h.persistenceQuantum ≠ env.volume.persistenceQuantum then
    failWith .corrupt "partition identity/geometry mismatch"
  else
    env.validatePartitionOptions h.options
    checkFeatures env h.features
    .ok h

/-- `read_partition_header`: the header in a slot, checked against the volume. -/
def readPartitionHeader (slot : UInt32) : Rd Status PartitionHeader := do
  let bytes ← Rd.readExact (env.partitionBase slot) partitionHeaderEncodedSize
  Rd.lift (acceptPartitionHeader env slot bytes)

/-- The checks of `read_footer` on the bytes it read. -/
def acceptFooter (h : PartitionHeader) (bytes : Bytes) : Except Status PartitionFooter := do
  let f ← decodePartitionFooter bytes
  if f.volumeIdHigh ≠ env.volume.volumeIdHigh ∨ f.volumeIdLow ≠ env.volume.volumeIdLow ∨
      f.slot ≠ h.slot ∨ f.generation ≠ h.generation ∨ f.indexOffset.toNat ≠ env.indexBegin ∨
      f.indexSize.toNat > env.indexRegionSize ∨ f.dataEnd.toNat < partitionHeaderRegionSize ∨
      f.dataEnd.toNat > env.indexBegin ∨ f.dataEnd.toNat % env.quantum ≠ 0 ∨
      f.indexSize.toNat ≠ f.blockCount.toNat * indexEntryEncodedSize ∨
      (f.blockCount = 0 ∧ f.dataEnd.toNat ≠ partitionHeaderRegionSize) ∨
      (f.blockCount ≠ 0 ∧ f.minTimeNs > f.maxTimeNs) then
    failWith .corrupt "footer identity/bounds mismatch"
  else .ok f

/-- `read_footer`: the footer of a partition, checked against its header. -/
def readFooter (h : PartitionHeader) : Rd Status PartitionFooter := do
  let bytes ← Rd.readExact (env.partitionBase h.slot + env.footerOffset) partitionFooterEncodedSize
  Rd.lift (acceptFooter env h bytes)

/-! ## The block scan -/

/-- A block's compression is that of its partition, or none. -/
def compressionAgrees (options : PartitionOptions) (b : BlockHeader) : Bool :=
  if b.compression = .none then b.storedSize == b.rawSize && b.compressionVersion == 1
  else b.compression == options.compression && b.compressionVersion == options.compressionVersion

/-- Where a scan stands: the next frame, what it has to carry, and the entries so far. -/
structure ScanState where
  cursor : Nat := partitionHeaderRegionSize
  expectedSequence : UInt32 := 0
  expectedWriterHigh : UInt64 := 0
  expectedWriterLow : UInt64 := 0
  entries : List IndexEntry := []

/-- The checks of the scan on a decoded block header. -/
def scanAccepts (h : PartitionHeader) (limit : Nat) (st : ScanState) (b : BlockHeader) : Bool :=
  b.generation == h.generation && b.slot == h.slot &&
  b.volumeIdLow == env.volume.volumeIdLow && b.volumeIdHigh == env.volume.volumeIdHigh &&
  b.previousWriterIdHigh == st.expectedWriterHigh &&
  b.previousWriterIdLow == st.expectedWriterLow &&
  b.sequence == st.expectedSequence && b.recordCount != 0 && decide (b.minTimeNs ≤ b.maxTimeNs) &&
  decide (b.storedSize ≤ env.volume.maxBlockPayload) &&
  decide (b.rawSize ≤ env.volume.maxBlockPayload) &&
  compressionAgrees h.options b &&
  b.frameSpan.toNat % env.quantum == 0 && st.cursor % env.quantum == 0 &&
  decide (b.frameSpan.toNat ≤ limit - st.cursor) &&
  alignUp (blockHeaderEncodedSize + b.storedSize.toNat) env.quantum == some b.frameSpan.toNat

/-- The index entry of a block at `offset`. -/
def blockEntry (offset : Nat) (b : BlockHeader) : IndexEntry where
  offset := UInt64.ofNat offset
  frameSize := 128 + b.storedSize
  frameSpan := b.frameSpan
  sequence := b.sequence
  recordCount := b.recordCount
  minTimeNs := b.minTimeNs
  maxTimeNs := b.maxTimeNs
  flags := b.flags
  rawSize := b.rawSize
  writerIdHigh := b.writerIdHigh
  writerIdLow := b.writerIdLow

/-- The state behind an accepted block. -/
def ScanState.next (st : ScanState) (b : BlockHeader) : ScanState where
  cursor := st.cursor + b.frameSpan.toNat
  expectedSequence := st.expectedSequence + 1
  expectedWriterHigh := b.writerIdHigh
  expectedWriterLow := b.writerIdLow
  entries := st.entries ++ [blockEntry st.cursor b]

/-- What a scan of a partition found. -/
structure Scan where
  entries : List IndexEntry := []
  dataEnd : Nat := partitionHeaderRegionSize
  stoppedOnCorruption : Bool := false
  deriving DecidableEq

/-- The result of a scan that ends here. -/
def ScanState.stop (st : ScanState) (corrupt : Bool) : Scan := ⟨st.entries, st.cursor, corrupt⟩

/-- The loop of `scan_partition`, `steps` turns long. -/
def scanLoop (h : PartitionHeader) (limit : Nat) : Nat → ScanState → Rd Status Scan
  | 0, st => pure (st.stop false)
  | steps + 1, st =>
    if st.cursor + blockHeaderEncodedSize ≤ limit then do
      let headerBytes ← Rd.readExact (env.partitionBase h.slot + st.cursor) blockHeaderEncodedSize
      match decodeBlockHeader headerBytes with
      | .error _ => pure (st.stop true)
      | .ok b =>
        if scanAccepts env h limit st b then do
          let payload ← Rd.readExact
            (env.partitionBase h.slot + st.cursor + blockHeaderEncodedSize) b.storedSize.toNat
          if crc32c payload ≠ b.payloadCrc then pure (st.stop true)
          else scanLoop h limit steps (st.next b)
        else pure (st.stop true)
    else pure (st.stop false)

/-- `scan_partition`; a `scanLimit` of zero stands for the whole data region. -/
def scanPartition (h : PartitionHeader) (scanLimit : Nat) : Rd Status Scan :=
  let limit := if scanLimit = 0 then env.indexBegin else scanLimit
  if limit < partitionHeaderRegionSize ∨ limit > env.indexBegin then
    Rd.fail ⟨.corrupt, "partition scan limit outside data region"⟩
  else scanLoop env h limit (limit + 1) {}

/-! ## The sealed index -/

/-- The loop over the loaded entries; returns the end of the last frame. -/
def checkEntries : Nat → Nat → List IndexEntry → Except Status Nat
  | _, expectedOffset, [] => .ok expectedOffset
  | i, expectedOffset, e :: es =>
    if e.sequence.toNat ≠ i ∨ e.offset.toNat ≠ expectedOffset ∨ e.recordCount = 0 ∨
        e.minTimeNs > e.maxTimeNs ∨ e.frameSize < 128 ∨
        e.frameSize > 128 + env.volume.maxBlockPayload ∨
        e.rawSize > env.volume.maxBlockPayload ∨ e.frameSpan.toNat % env.quantum ≠ 0 ∨
        e.frameSpan.toNat > env.indexBegin - e.offset.toNat then
      failWith .corrupt "partition index sequence/bounds mismatch"
    else if alignUp e.frameSize.toNat env.quantum ≠ some e.frameSpan.toNat then
      failWith .corrupt "partition index frame span mismatch"
    else checkEntries (i + 1) (expectedOffset + e.frameSpan.toNat) es

/-- The checks of `load_index` on the bytes it read. -/
def acceptIndex (f : PartitionFooter) (bytes : Bytes) : Except Status (List IndexEntry) := do
  if crc32c bytes ≠ f.indexCrc then failWith .corrupt "partition index CRC mismatch"
  else
    let entries ← decodeIndex bytes
    if entries.length ≠ f.blockCount.toNat then
      failWith .corrupt "partition index count mismatch"
    else
      let dataEnd ← checkEntries env 0 partitionHeaderRegionSize entries
      if dataEnd ≠ f.dataEnd.toNat then failWith .corrupt "partition index data end mismatch"
      else .ok entries

/-- `load_index`: the index of a sealed partition, checked against its footer. -/
def loadIndex (p : PartitionState) : Rd Status (List IndexEntry) :=
  if ¬ p.isSealed then Rd.fail ⟨.invalidArgument, "partition is not sealed"⟩
  else if p.footer.indexSize = 0 then pure []
  else do
    let bytes ← Rd.readExact (env.partitionBase p.header.slot + p.footer.indexOffset.toNat)
      p.footer.indexSize.toNat
    Rd.lift (acceptIndex env p.footer bytes)

/-! ## One block -/

/-- What a block event tells about its block. -/
structure BlockMetadata where
  partitionSlot : UInt32 := 0
  partitionGeneration : UInt64 := 0
  blockSequence : UInt32 := 0
  recordCount : UInt32 := 0
  minTimeNs : Int64 := 0
  maxTimeNs : Int64 := 0
  flags : UInt32 := 0
  compression : CompressionId := .none
  storedSize : UInt32 := 0
  rawSize : UInt32 := 0
  physicalOffset : Nat := 0
  recordFormatId : UInt64 := 0
  recordFormatVersion : UInt16 := 0
  timeDomainId : UInt64 := 0
  deriving DecidableEq

/-- The outcome of a failed read: an overwrite when the slot has changed hands, an I/O or
version problem of the header itself, else the failure at hand. -/
def classifySnapshotFailure {α : Type} (p : PartitionState) (fallback : Status) : Rd Status α := do
  match ← Rd.attempt (readPartitionHeader env p.header.slot) with
  | .ok current =>
    if current.generation ≠ p.header.generation then
      Rd.fail ⟨.overwritten, "partition changed while reading block"⟩
    else Rd.fail fallback
  | .error st =>
    if st.isIo || st.code == .unsupported then Rd.fail st else Rd.fail fallback

/-- The block belongs to the snapshotted partition and is the one the entry names. -/
def identityAgrees (p : PartitionState) (e : IndexEntry) (b : BlockHeader) : Bool :=
  b.generation == p.header.generation && b.slot == p.header.slot && b.sequence == e.sequence &&
  b.volumeIdLow == env.volume.volumeIdLow && b.volumeIdHigh == env.volume.volumeIdHigh &&
  ((e.writerIdHigh == 0 && e.writerIdLow == 0) ||
    (b.writerIdHigh == e.writerIdHigh && b.writerIdLow == e.writerIdLow))

/-- The block header and the index entry tell the same; the sum is a 32-bit one. -/
def metadataAgrees (p : PartitionState) (e : IndexEntry) (b : BlockHeader) : Bool :=
  b.storedSize + 128 == e.frameSize && b.frameSpan == e.frameSpan &&
  decide (b.rawSize ≤ env.volume.maxBlockPayload) &&
  decide (b.storedSize ≤ env.volume.maxBlockPayload) &&
  b.recordCount != 0 && decide (b.minTimeNs ≤ b.maxTimeNs) &&
  b.recordCount == e.recordCount && b.rawSize == e.rawSize &&
  b.minTimeNs == e.minTimeNs && b.maxTimeNs == e.maxTimeNs && b.flags == e.flags &&
  compressionAgrees p.header.options b

/-- The metadata of a block that was read. -/
def blockMetadata (p : PartitionState) (e : IndexEntry) (b : BlockHeader) : BlockMetadata where
  partitionSlot := p.header.slot
  partitionGeneration := p.header.generation
  blockSequence := b.sequence
  recordCount := b.recordCount
  minTimeNs := b.minTimeNs
  maxTimeNs := b.maxTimeNs
  flags := b.flags
  compression := b.compression
  storedSize := b.storedSize
  rawSize := b.rawSize
  physicalOffset := env.partitionBase p.header.slot + e.offset.toNat
  recordFormatId := p.header.options.recordFormatId
  recordFormatVersion := p.header.options.recordFormatVersion
  timeDomainId := p.header.options.timeDomainId

/-- Decompress a payload whose checksum was verified. -/
def decodePayload (b : BlockHeader) (stored : Bytes) : Except Status Bytes := do
  match env.codecFor b.compression b.compressionVersion with
  | none => failWith .unsupported "block compression unavailable"
  | some codec =>
    let decoded ← codec.decompress stored b.rawSize.toNat
    if decoded.length ≠ b.rawSize.toNat then
      failWith .corrupt "compression codec returned wrong output size"
    else .ok decoded

/-- `slot_message` -/
def slotMessage (text : String) (slot : UInt32) (generation : UInt64) : String :=
  text ++ " slot=" ++ toString slot.toNat ++ " generation=" ++ toString generation.toNat

/-- `read_block`: a block between two reads of its partition header, and its payload decoded. -/
def readBlock (p : PartitionState) (e : IndexEntry) : Rd Status (BlockMetadata × Bytes) := do
  match ← Rd.attempt (readPartitionHeader env p.header.slot) with
  | .error st => classifySnapshotFailure env p st
  | .ok current =>
    if current.generation ≠ p.header.generation then
      Rd.fail ⟨.overwritten,
        slotMessage "partition was overwritten" p.header.slot p.header.generation⟩
    else do
      let headerBytes ← Rd.readExact (env.partitionBase p.header.slot + e.offset.toNat)
        blockHeaderEncodedSize
      match decodeBlockHeader headerBytes with
      | .error st => classifySnapshotFailure env p st
      | .ok b =>
        if ¬ identityAgrees env p e b then
          classifySnapshotFailure env p ⟨.corrupt, "block identity disagrees with snapshot"⟩
        else if ¬ metadataAgrees env p e b then
          classifySnapshotFailure env p ⟨.corrupt, "block metadata disagrees with partition/index"⟩
        else if alignUp (blockHeaderEncodedSize + b.storedSize.toNat) env.quantum ≠
            some b.frameSpan.toNat then
          classifySnapshotFailure env p ⟨.corrupt, "block frame span mismatch"⟩
        else do
          let stored ← Rd.readExact
            (env.partitionBase p.header.slot + e.offset.toNat + blockHeaderEncodedSize)
            b.storedSize.toNat
          match ← Rd.attempt (readPartitionHeader env p.header.slot) with
          | .error st => classifySnapshotFailure env p st
          | .ok afterRead =>
            if afterRead.generation ≠ p.header.generation then
              Rd.fail ⟨.overwritten, "partition changed while reading block payload"⟩
            else if crc32c stored ≠ b.payloadCrc then
              classifySnapshotFailure env p ⟨.corrupt, "block payload CRC mismatch"⟩
            else do
              let decoded ← Rd.lift (decodePayload env b stored)
              pure (blockMetadata env p e b, decoded)

/-! ## Queries -/

/-- The kinds of events. -/
inductive BlockEventKind
  | data | overwrittenGap | corruptGap
  deriving DecidableEq, Repr

/-- An event as the visitor gets it. -/
structure BlockEvent where
  kind : BlockEventKind := .data
  metadata : BlockMetadata := {}
  data : Bytes := []
  detail : Status := {}
  deriving DecidableEq

/-- A half-open range of one time domain. -/
structure TimeRange where
  beginNs : Int64 := 0
  endNs : Int64 := 0
  timeDomainId : UInt64 := 1

/-- Stored block ranges are closed; queries are half-open. -/
def rangesIntersect (minTime maxTime : Int64) (range : TimeRange) : Bool :=
  decide (minTime < range.endNs) && decide (maxTime ≥ range.beginNs)

/-- What a call asks for: `none` is `scan_blocks`, a range is `query_blocks`. -/
structure Query where
  range : Option TimeRange := none
  continueOnGap : Bool := true
  visitor : List BlockEvent → Bool := fun _ => true

/-- Is the partition of the time domain asked for? -/
def Query.selectsPartition (q : Query) (p : PartitionState) : Bool :=
  match q.range with
  | none => true
  | some r => r.timeDomainId == 0 || p.header.options.timeDomainId == r.timeDomainId

/-- Does the block meet the range? -/
def Query.selectsEntry (q : Query) (e : IndexEntry) : Bool :=
  match q.range with
  | none => true
  | some r => rangesIntersect e.minTimeNs e.maxTimeNs r

/-- The events delivered and the gap counters. -/
structure QueryState where
  events : List BlockEvent := []
  corruptGaps : Nat := 0
  overwrittenGaps : Nat := 0

/-- Hand an event to the visitor and count it. -/
def QueryState.deliver (qs : QueryState) (ev : BlockEvent) : QueryState where
  events := qs.events ++ [ev]
  corruptGaps := qs.corruptGaps + if ev.kind = .corruptGap then 1 else 0
  overwrittenGaps := qs.overwrittenGaps + if ev.kind = .overwrittenGap then 1 else 0

/-- Deliver an event.  The second component is the status the call returns with, if it ends
here. -/
def Query.emit (q : Query) (qs : QueryState) (ev : BlockEvent) : QueryState × Option Status :=
  let qs := qs.deliver ev
  if ¬ q.visitor qs.events then (qs, some {})
  else if ev.kind ≠ .data ∧ ¬ q.continueOnGap then (qs, some ev.detail)
  else (qs, none)

/-- A gap for a whole partition. -/
def gapEvent (kind : BlockEventKind) (detail : Status) (p : PartitionState) : BlockEvent where
  kind := kind
  metadata := { partitionSlot := p.header.slot, partitionGeneration := p.header.generation }
  detail := detail

/-- Index acquisition of one partition. -/
structure Acquired where
  entries : List IndexEntry
  corruptScan : Bool := false
  invalidSealedIndex : Bool := false
  rescannedUnsealed : Bool := false
  scannedEnd : Nat := 0

/-- The fallback when the index could not be acquired: a scan bounded by the footer. -/
def rescanAfter (p : PartitionState) (rescanned : Bool) (st : Status) : Rd Status Acquired :=
  if st.code ≠ .corrupt then Rd.fail st
  else do
    let scan ← scanPartition env p.header (if p.isSealed then p.footer.dataEnd.toNat else 0)
    pure ⟨scan.entries, scan.stoppedOnCorruption, p.isSealed, rescanned, scan.dataEnd⟩

/-- The entries of a partition: the stored index, the resident one, or a scan. -/
def acquireIndex (p : PartitionState) : Rd Status Acquired := do
  if p.isSealed then
    match ← Rd.attempt (loadIndex env p) with
    | .ok entries => pure { entries := entries }
    | .error st => rescanAfter env p false st
  else if p.activeIndex ≠ [] ∨ p.dataEnd = partitionHeaderRegionSize then
    pure { entries := p.activeIndex }
  else
    match ← Rd.attempt (scanPartition env p.header p.dataEnd) with
    | .ok scan => pure ⟨scan.entries, scan.stoppedOnCorruption, false, true, scan.dataEnd⟩
    | .error st => rescanAfter env p true st

/-- Does what was acquired contradict the catalog? -/
def Acquired.invalidPrefix (a : Acquired) (p : PartitionState) : Bool :=
  (p.isSealed &&
    (a.invalidSealedIndex || a.corruptScan || a.entries.length != p.footer.blockCount.toNat ||
      (a.scannedEnd != 0 && a.scannedEnd != p.footer.dataEnd.toNat))) ||
  (a.rescannedUnsealed &&
    (a.corruptScan || a.scannedEnd != p.dataEnd || a.entries.length != p.blockCount.toNat))

/-- The event for a slot that no longer carries the snapshotted generation, or the status the
query ends with. -/
def generationGap (p : PartitionState) : Except Status PartitionHeader → Option (Except Status BlockEvent)
  | .ok current =>
    if current.generation ≠ p.header.generation then
      some (.ok (gapEvent .overwrittenGap
        ⟨.overwritten, "partition changed while acquiring its index"⟩ p))
    else none
  | .error st =>
    if st.isIo || st.code == .unsupported then some (.error st)
    else some (.ok (gapEvent .corruptGap st p))

/-- The events of the entries of one partition. -/
def queryEntries (q : Query) (p : PartitionState) :
    List IndexEntry → QueryState → ReadProg Status (QueryState × Option Status)
  | [], qs => pure (qs, none)
  | e :: es, qs =>
    if ¬ q.selectsEntry e then queryEntries q p es qs
    else do
      match ← Rd.outcome (readBlock env p e) with
      | .ok (metadata, decoded) =>
        match q.emit qs { metadata := metadata, data := decoded } with
        | (qs, some st) => pure (qs, some st)
        | (qs, none) => queryEntries q p es qs
      | .error st =>
        let kind := if st.code = .overwritten then .overwrittenGap else .corruptGap
        let gap := gapEvent kind st p
        let ev := { gap with metadata := { gap.metadata with blockSequence := e.sequence } }
        match q.emit qs ev with
        | (qs, some st) => pure (qs, some st)
        | (qs, none) =>
          -- exactly one overwrite event for a snapshotted partition
          if kind = .overwrittenGap then pure (qs, none) else queryEntries q p es qs

/-- The events of one partition. -/
def queryPartition (q : Query) (p : PartitionState) (qs : QueryState) :
    ReadProg Status (QueryState × Option Status) := do
  if ¬ q.selectsPartition p then pure (qs, none)
  else
    match ← Rd.outcome (acquireIndex env p) with
    | .error st => pure (qs, some st)
    | .ok acquired =>
      match generationGap p (← Rd.outcome (readPartitionHeader env p.header.slot)) with
      | some (.error st) => pure (qs, some st)
      | some (.ok ev) => pure (q.emit qs ev)
      | none =>
        if acquired.invalidPrefix p then
          let text := if p.isSealed then "sealed partition has invalid data/index prefix"
            else "footerless partition changed after catalog snapshot"
          match q.emit qs (gapEvent .corruptGap ⟨.corrupt, text⟩ p) with
          | (qs, some st) => pure (qs, some st)
          | (qs, none) => queryEntries env q p acquired.entries qs
        else queryEntries env q p acquired.entries qs

/-- The events of the partitions, until one ends the call. -/
def queryPartitions (q : Query) : List PartitionState → QueryState →
    ReadProg Status (QueryState × Status)
  | [], qs => pure (qs, {})
  | p :: ps, qs => do
    match ← queryPartition env q p qs with
    | (qs, some st) => pure (qs, st)
    | (qs, none) => queryPartitions q ps qs

/-- The gaps of the slots whose headers open found damaged. -/
def queryCorruptSlots (q : Query) : List UInt32 → QueryState → QueryState × Option Status
  | [], qs => (qs, none)
  | slot :: slots, qs =>
    match q.emit qs
        { kind := .corruptGap, metadata := { partitionSlot := slot }
          detail := ⟨.corrupt, "partition header is damaged"⟩ } with
    | (qs, some st) => (qs, some st)
    | (qs, none) => queryCorruptSlots q slots qs

/-- `query` on a snapshot of the catalog and of the damaged slots. -/
def query (q : Query) (snapshot : List PartitionState) (corruptSlots : List UInt32) :
    ReadProg Status (QueryState × Status) :=
  match q.range with
  | some r =>
    if r.endNs ≤ r.beginNs then
      pure ({}, ⟨.invalidArgument, "time range must be non-empty [begin,end)"⟩)
    else if r.timeDomainId = 0 then
      pure ({}, ⟨.invalidArgument, "time domain zero requires scan_blocks()"⟩)
    else run
  | none => run
where
  run : ReadProg Status (QueryState × Status) :=
    match queryCorruptSlots q corruptSlots {} with
    | (qs, some st) => pure (qs, st)
    | (qs, none) => queryPartitions env q (sortPartitions snapshot) qs

end TFDB
