import TFDB.Reader

/-!
# Writing

The mutating functions of `RingStore` as writing programs over the store.  Every storage
error is latched by `failFault`; an error that is not latched leaves the store usable.  No
mutating function reads the medium.
-/

set_option autoImplicit false

namespace TFDB

open ByteLib

/-- A mutating function of the store. -/
abbrev Writer (α : Type) := Wr Status Item Store α

namespace Writer

/-- `fail`: latch the fault and return it. -/
def failFault {α : Type} (st : Status) : Writer α := do
  Wr.modify fun s => { s with faulted := true, faultStatus := st }
  Wr.fail st

/-- A write whose failure is latched. -/
def writeItem (off : Nat) (i : Item) : Writer Unit := do
  match ← Wr.tryWrite off i with
  | .ok () => pure ()
  | .error st => failFault st

/-- The store after a successful flush. -/
def synced (advancesDurability : Bool) (s : Store) : Store :=
  let s := { s with metrics := { s.metrics with syncCalls := s.metrics.syncCalls + 1 } }
  if advancesDurability then
    { s with
      dirty := false
      haveUndurableRecords := false
      metrics := { s.metrics with
        checkpoints := s.metrics.checkpoints + 1
        durableRecords := s.metrics.acceptedRecords
        durableBlocks := s.metrics.publishedBlocks } }
  else s

/-- The store after a failed flush. -/
def syncFailed (s : Store) : Store :=
  { s with metrics := { s.metrics with
      syncCalls := s.metrics.syncCalls + 1, syncErrors := s.metrics.syncErrors + 1 } }

/-- `sync_media`: flush the storage, and count what became durable. -/
def syncMedia (advancesDurability : Bool) : Writer Unit := do
  match ← Wr.tryFlush with
  | .ok () => Wr.modify (synced advancesDurability)
  | .error st =>
    Wr.modify syncFailed
    failFault st

/-! ## Partitions -/

/-- The header of a new partition. -/
def newHeader (env : Env) (slot : UInt32) (generation : UInt64) (options : PartitionOptions) :
    PartitionHeader where
  volumeIdHigh := env.volume.volumeIdHigh
  volumeIdLow := env.volume.volumeIdLow
  generation := generation
  slot := slot
  createdTimeNs := 0
  maxBlockPayload := env.volume.maxBlockPayload
  persistenceQuantum := env.volume.persistenceQuantum
  options := options

/-- The store after a partition was created. -/
def installPartition (s : Store) (h : PartitionHeader) (timeDomainChanged : Bool) : Store :=
  { s with
    partitions := sortPartitions
      (s.partitions.filter (fun p => p.header.slot != h.slot) ++ [{ header := h }])
    corruptSlots := s.corruptSlots.filter (· != h.slot)
    activeGeneration := h.generation
    activeSlot := h.slot
    haveLastTime := if timeDomainChanged then false else s.haveLastTime
    dirty := false }

/-- `create_partition`: write and flush the header, then install the partition. -/
def createPartition (slot : UInt32) (generation : UInt64) (options : PartitionOptions) :
    Writer Unit := do
  if generation = 0 then Wr.fail ⟨.generationExhausted, "partition generation exhausted"⟩
  else
    let s ← Wr.get
    let timeDomainChanged := match s.active with
      | some previous => decide (previous.header.options.timeDomainId ≠ options.timeDomainId)
      | none => false
    let header := newHeader s.env slot generation options
    match s.env.validatePartitionOptions options with
    | .error st => Wr.fail st
    | .ok () =>
      writeItem (s.env.partitionBase slot) (.header header)
      syncMedia false
      Wr.modify fun s => installPartition s header timeDomainChanged

/-- The store after a seal. -/
def markSealed (f : PartitionFooter) (s : Store) : Store :=
  s.updateActive fun p => { p with isSealed := true, indexValid := true, footer := f }

/-- The footer of the active partition. -/
def sealFooter (env : Env) (p : PartitionState) : PartitionFooter where
  volumeIdHigh := env.volume.volumeIdHigh
  volumeIdLow := env.volume.volumeIdLow
  generation := p.header.generation
  slot := p.header.slot
  flags := p.aggregateFlags
  blockCount := UInt32.ofNat p.activeIndex.length
  indexOffset := UInt64.ofNat env.indexBegin
  indexSize := UInt32.ofNat (encodeIndex p.activeIndex).length
  dataEnd := UInt64.ofNat p.dataEnd
  minTimeNs := if p.hasTime then p.minTimeNs else 0
  maxTimeNs := if p.hasTime then p.maxTimeNs else 0
  indexCrc := crc32c (encodeIndex p.activeIndex)

/-- The part of `seal_active_only` behind the first flush. -/
def writeSeal (p : PartitionState) : Writer Unit := do
  let s ← Wr.get
  if (encodeIndex p.activeIndex).length > s.env.indexRegionSize then
    failFault ⟨.internalError, "active index exceeds reserve"⟩
  else
    Wr.when (p.activeIndex ≠ []) (writeItem
      (s.env.partitionBase p.header.slot + s.env.indexBegin) (.index p.activeIndex))
    let footer := sealFooter s.env p
    writeItem (s.env.partitionBase p.header.slot + s.env.footerOffset)
      (.footer footer p.activeIndex)
    syncMedia false
    Wr.modify (markSealed footer)

/-- `seal_active_only`: flush the blocks, then write the index and the footer. -/
def sealActiveOnly : Writer Unit := do
  let s ← Wr.get
  match s.active with
  | none => Wr.fail ⟨.internalError, "no active partition to seal"⟩
  | some p =>
    if p.isSealed then Wr.fail ⟨.internalError, "no active partition to seal"⟩
    else
      -- The first flush is required: footer must not become durable before data.
      Wr.when s.dirty (syncMedia true)
      writeSeal p

/-- One more rotation. -/
def countRotation (s : Store) : Store :=
  { s with metrics := { s.metrics with rotations := s.metrics.rotations + 1 } }

/-- `rotate_internal`: seal the active partition and create the next one in the slot behind it. -/
def rotateInternal (options : PartitionOptions) : Writer Unit := do
  let s ← Wr.get
  match s.active with
  | none => Wr.fail ⟨.internalError, "missing active partition"⟩
  | some p =>
    if p.header.generation = 0xffffffffffffffff then
      failFault ⟨.generationExhausted, "partition generation exhausted"⟩
    else
      sealActiveOnly
      createPartition ((p.header.slot + 1) % s.env.volume.partitionCount)
        (p.header.generation + 1) options
      Wr.modify countRotation

/-- The longest frame a full builder can need. -/
def worstSpan (env : Env) : Option Nat :=
  alignUp (blockHeaderEncodedSize + env.maxBlockPayload) env.quantum

/-- `ensure_empty_builder_capacity`: rotate before the first record of a block that may not fit. -/
def ensureEmptyBuilderCapacity : Writer Unit := do
  let s ← Wr.get
  if s.builder ≠ [] then pure ()
  else
    match s.active with
    | none => Wr.fail ⟨.internalError, "missing active partition"⟩
    | some p =>
      match worstSpan s.env with
      | none => failFault ⟨.noSpace, "configured block cannot fit empty partition"⟩
      | some span =>
        if span > s.env.indexBegin - partitionHeaderRegionSize then
          failFault ⟨.noSpace, "configured block cannot fit empty partition"⟩
        else if p.dataEnd > s.env.indexBegin ∨ span > s.env.indexBegin - p.dataEnd ∨
            p.activeIndex.length + 1 > s.env.indexRegionSize / indexEntryEncodedSize then
          rotateInternal s.nextOptions
        else pure ()

/-! ## Blocks -/

/-- The stored form of the builder: compressed if that is shorter. -/
structure Stored where
  compression : CompressionId := .none
  version : UInt16 := 1
  payload : Bytes

/-- The compression step of `emit_builder`. -/
def packBuilder (env : Env) (options : PartitionOptions) (builder : Bytes) : Except Status Stored :=
  match env.codecFor options.compression options.compressionVersion with
  | none => failWith .unsupported "compression codec unavailable"
  | some configured =>
    if options.compression = .none then .ok { payload := builder }
    else do
      let compressed ← configured.compress builder
      if compressed.length > configured.maxCompressedSize builder.length then
        failWith .internalError "compression codec exceeded declared bound"
      else if compressed = [] then
        failWith .internalError "compression codec returned empty output"
      else if compressed.length < builder.length then
        .ok { compression := options.compression, version := configured.version,
              payload := compressed }
      else .ok { payload := builder }

/-- The header of the block the builder becomes. -/
def builderBlock (s : Store) (p : PartitionState) (stored : Stored) (span : Nat) : BlockHeader where
  generation := p.header.generation
  slot := p.header.slot
  sequence := UInt32.ofNat p.activeIndex.length
  flags := s.builderFlags
  recordCount := s.builderRecords
  storedSize := UInt32.ofNat stored.payload.length
  rawSize := UInt32.ofNat s.builder.length
  frameSpan := UInt32.ofNat span
  minTimeNs := s.builderMinTime
  maxTimeNs := s.builderMaxTime
  compression := stored.compression
  compressionVersion := stored.version
  payloadCrc := crc32c stored.payload
  volumeIdLow := s.env.volume.volumeIdLow
  volumeIdHigh := s.env.volume.volumeIdHigh
  writerIdHigh := s.writerIdHigh
  writerIdLow := s.writerIdLow
  previousWriterIdHigh := match p.activeIndex.getLast? with
    | some last => last.writerIdHigh
    | none => 0
  previousWriterIdLow := match p.activeIndex.getLast? with
    | some last => last.writerIdLow
    | none => 0

/-- The partition after a block was written at its end. -/
def addBlock (p : PartitionState) (b : BlockHeader) (frameSize span : Nat) : PartitionState :=
  let entry := { blockEntry p.dataEnd b with
    frameSize := UInt32.ofNat frameSize, frameSpan := UInt32.ofNat span }
  { p with
    activeIndex := p.activeIndex ++ [entry]
    blockCount := UInt32.ofNat (p.activeIndex.length + 1)
    dataEnd := p.dataEnd + span
    aggregateFlags := p.aggregateFlags ||| b.flags
    hasTime := true
    minTimeNs := if p.hasTime then min p.minTimeNs b.minTimeNs else b.minTimeNs
    maxTimeNs := if p.hasTime then max p.maxTimeNs b.maxTimeNs else b.maxTimeNs }

/-- The store after a block was written. -/
def publishBlock (s : Store) (b : BlockHeader) (frameSize span : Nat) : Store :=
  { s.updateActive (addBlock · b frameSize span) with
    metrics := { s.metrics with
      publishedBlocks := s.metrics.publishedBlocks + 1
      storedBlockBytes := s.metrics.storedBlockBytes + UInt64.ofNat frameSize
      rawBlockBytes := s.metrics.rawBlockBytes + UInt64.ofNat s.builder.length }
    dirty := true
    builder := []
    builderRecords := 0
    builderFlags := 0 }

/-- `emit_builder`: write the builder as the next block of the active partition. -/
def emitBuilder : Writer Unit := do
  let s ← Wr.get
  if s.builder = [] then pure ()
  else
    match s.active with
    | none => failFault ⟨.internalError, "missing active partition"⟩
    | some p =>
      match packBuilder s.env p.header.options s.builder with
      | .error st => failFault st
      | .ok stored =>
        let frameSize := blockHeaderEncodedSize + stored.payload.length
        match alignUp frameSize s.env.quantum with
        | none => failFault ⟨.outOfRange, "encoded block too large"⟩
        | some span =>
          if frameSize > 0xffffffff ∨ span > 0xffffffff then
            failFault ⟨.outOfRange, "encoded block too large"⟩
          else if p.dataEnd > s.env.indexBegin ∨ span > s.env.indexBegin - p.dataEnd ∨
              p.activeIndex.length + 1 > s.env.indexRegionSize / indexEntryEncodedSize then
            failFault ⟨.internalError, "builder capacity was not reserved before accepting records"⟩
          else
            let b := builderBlock s p stored span
            writeItem (s.env.partitionBase p.header.slot + p.dataEnd)
              (.frame b stored.payload s.builder)
            Wr.modify fun s => publishBlock s b frameSize span

/-! ## The public operations -/

/-- The guards every mutating call starts with. -/
def guardWritable : Writer Unit := do
  let s ← Wr.get
  if ¬ s.writable then Wr.fail ⟨.ioError, "store is read-only"⟩
  else if s.closed then Wr.fail ⟨.closed, "store is closed"⟩
  else if s.faulted then Wr.fail s.faultStatus
  else pure ()

/-- What a checked append expects of the active partition. -/
structure AppendContract where
  recordFormatId : UInt64 := 0
  recordFormatVersion : UInt16 := 0
  timeDomainId : UInt64 := 1

/-- `delta_exceeds`: is the step longer than allowed?  A negative bound allows any step. -/
def deltaExceeds (earlier later allowed : Int64) : Bool :=
  if allowed < 0 then false
  else if later < earlier then true
  else decide (later.toUInt64 - earlier.toUInt64 > allowed.toUInt64)

def recordFlagUnsynchronizedTime : UInt32 := 1
def blockFlagTimeAnomaly : UInt32 := 1
def blockFlagUnsynchronizedTime : UInt32 := 2

/-- Does the step from the last accepted time exceed what the partition allows? -/
def timeAnomaly (s : Store) (options : PartitionOptions) (time : Int64) : Bool :=
  s.haveLastTime &&
    ((decide (time < s.lastTime) && deltaExceeds time s.lastTime options.allowedBackwardSkewNs) ||
     (decide (time > s.lastTime) && deltaExceeds s.lastTime time options.allowedForwardStepNs))

/-- Copy a record into the builder. -/
def acceptRecord (s : Store) (options : PartitionOptions) (record : Bytes) (time : Int64)
    (recordFlags : UInt32) : Store :=
  let anomaly := timeAnomaly s options time
  let flags := (recordFlags &&& 0xffff0000) |||
    (if recordFlags &&& recordFlagUnsynchronizedTime ≠ 0 then blockFlagUnsynchronizedTime else 0) |||
    (if anomaly then blockFlagTimeAnomaly else 0)
  let first := s.builder.isEmpty
  { s with
    builderMinTime := if first then time else min s.builderMinTime time
    builderMaxTime := if first then time else max s.builderMaxTime time
    builderFlags := if first then flags else s.builderFlags ||| flags
    builder := s.builder ++ record
    builderRecords := s.builderRecords + 1
    lastTime := time
    haveLastTime := true
    haveUndurableRecords := true
    metrics := { s.metrics with
      acceptedRecords := s.metrics.acceptedRecords + 1
      acceptedPayloadBytes := s.metrics.acceptedPayloadBytes + UInt64.ofNat record.length
      timeAnomalies := s.metrics.timeAnomalies + if anomaly then 1 else 0 } }

/-- Does the partition keep the contract? -/
def contractHolds (options : PartitionOptions) : Option AppendContract → Bool
  | none => true
  | some c => options.recordFormatId == c.recordFormatId &&
      options.recordFormatVersion == c.recordFormatVersion && options.timeDomainId == c.timeDomainId

/-- `append_impl`: emit a full builder, make room, then copy the record. -/
def appendImpl (record : Bytes) (time : Int64) (recordFlags : UInt32)
    (expected : Option AppendContract) : Writer Unit := do
  guardWritable
  let s ← Wr.get
  if record = [] then Wr.fail ⟨.invalidArgument, "zero-length record is not allowed"⟩
  else if record.length > s.env.maxBlockPayload then
    Wr.fail ⟨.outOfRange, "record exceeds block payload limit"⟩
  else
    Wr.when (record.length > s.env.maxBlockPayload - s.builder.length) emitBuilder
    ensureEmptyBuilderCapacity
    let s ← Wr.get
    match s.active with
    | none => Wr.fail ⟨.internalError, "missing active partition"⟩
    | some p =>
      if ¬ contractHolds p.header.options expected then
        Wr.fail ⟨.invalidArgument, "active partition contract changed before append"⟩
      else Wr.set (acceptRecord s p.header.options record time recordFlags)

/-- `append` on any partition. -/
def append (record : Bytes) (time : Int64) (recordFlags : UInt32) : Writer Unit :=
  appendImpl record time recordFlags none

/-- `append_checked`: the partition must keep the contract when the record is copied. -/
def appendChecked (record : Bytes) (time : Int64) (expected : AppendContract)
    (recordFlags : UInt32) : Writer Unit :=
  if expected.recordFormatId = 0 ∨ expected.recordFormatVersion = 0 ∨ expected.timeDomainId = 0 then
    Wr.fail ⟨.invalidArgument, "checked append requires a nonzero partition contract"⟩
  else appendImpl record time recordFlags (some expected)

/-- Write the builder; nothing is flushed. -/
def publish : Writer Unit := do
  guardWritable
  emitBuilder

/-- Write the builder and flush. -/
def checkpoint : Writer Unit := do
  guardWritable
  emitBuilder
  let s ← Wr.get
  Wr.when s.dirty (syncMedia true)

/-- Write the builder, flush, and end the store.  A read-only store only ends. -/
def close : Writer Unit := do
  let s ← Wr.get
  if s.closed then pure ()
  else if ¬ s.writable then Wr.modify fun s => { s with closed := true }
  else if s.faulted then Wr.fail s.faultStatus
  else
    emitBuilder
    let s ← Wr.get
    Wr.when s.dirty (syncMedia true)
    Wr.modify fun s => { s with closed := true }

/-- Write the builder and seal the partition; the next one has the options given. -/
def rotate (next : PartitionOptions) : Writer Unit := do
  guardWritable
  let s ← Wr.get
  match s.env.validatePartitionOptions next with
  | .error st => Wr.fail st
  | .ok () =>
    emitBuilder
    Wr.modify fun s => { s with nextOptions := next }
    rotateInternal next

/-- Choose the options of the partitions to come. -/
def setNextPartitionOptions (options : PartitionOptions) : Writer Unit := do
  guardWritable
  let s ← Wr.get
  match s.env.validatePartitionOptions options with
  | .error st => Wr.fail st
  | .ok () => Wr.modify fun s => { s with nextOptions := options }

end Writer

/-- A mutating call. -/
inductive Op
  | append (record : Bytes) (time : Int64) (flags : UInt32)
  | appendChecked (record : Bytes) (time : Int64) (expected : Writer.AppendContract) (flags : UInt32)
  | publish
  | checkpoint
  | close
  | rotate (next : PartitionOptions)
  | setNext (options : PartitionOptions)

/-- The program of a call. -/
def Op.program : Op → Writer Unit
  | .append record time flags => Writer.append record time flags
  | .appendChecked record time expected flags => Writer.appendChecked record time expected flags
  | .publish => Writer.publish
  | .checkpoint => Writer.checkpoint
  | .close => Writer.close
  | .rotate next => Writer.rotate next
  | .setNext options => Writer.setNextPartitionOptions options

end TFDB
