import TFDB.Writer

/-!
# Formatting and opening a volume

`format` writes both copies of the volume header.  `open` picks a valid copy, recovers every
slot and, for a writable store, finds or creates the partition to continue: `recover` is the
reading part and `startWriter` the writing part, which the source runs in this order.
-/

set_option autoImplicit false

namespace TFDB

open ByteLib

/-! ## Format -/

/-- The options of `format`. -/
structure VolumeOptions where
  partitionSize : UInt64 := 64 * 1024 * 1024
  indexRegionSize : UInt32 := 1024 * 1024
  maxBlockPayload : UInt32 := 32 * 1024
  persistenceQuantum : UInt32 := 4096
  volumeIdHigh : UInt64 := 0
  volumeIdLow : UInt64 := 0
  allowExplicitVolumeIdForTesting : Bool := false
  createdTimeNs : Int64 := 0

/-- The explicit ID if there is one and it is allowed, else the random one. -/
def chooseId (high low : UInt64) (allowExplicit : Bool) (text : String)
    (random : Except Status (UInt64 × UInt64)) : Except Status (UInt64 × UInt64) :=
  if high ≠ 0 ∨ low ≠ 0 then
    if ¬ allowExplicit then failWith .invalidArgument text else .ok (high, low)
  else random

/-- The checks of `format` and the header it writes.  `random` is the outcome of the random
ID source. -/
def formatHeader (storageSize : Nat) (o : VolumeOptions)
    (random : Except Status (UInt64 × UInt64)) : Except Status VolumeHeader := do
  let quantum := o.persistenceQuantum.toNat
  let fixed := partitionHeaderRegionSize + partitionFooterRegionSize + o.indexRegionSize.toNat
  if storageSize < volumePrefixSize ∨ o.partitionSize = 0 ∨ ¬ isPowerOfTwo o.persistenceQuantum ∨
      quantum > partitionHeaderRegionSize ∨ o.maxBlockPayload = 0 ∨
      o.indexRegionSize.toNat < indexEntryEncodedSize ∨ volumePrefixSize % quantum ≠ 0 ∨
      partitionHeaderRegionSize % quantum ≠ 0 ∨ o.partitionSize.toNat % quantum ≠ 0 ∨
      o.indexRegionSize.toNat % quantum ≠ 0 ∨ o.partitionSize.toNat < fixed + quantum then
    failWith .invalidArgument "invalid volume geometry"
  else
    let count := (storageSize - volumePrefixSize) / o.partitionSize.toNat
    if count < 2 ∨ count > 0xffffffff then
      failWith .invalidArgument "volume needs 2..UINT32_MAX partitions"
    else
      match alignUp (blockHeaderEncodedSize + o.maxBlockPayload.toNat) quantum with
      | none => failWith .invalidArgument "maximum block cannot fit partition"
      | some maximumSpan =>
        if maximumSpan > o.partitionSize.toNat - fixed then
          failWith .invalidArgument "maximum block cannot fit partition"
        else
          let id ← chooseId o.volumeIdHigh o.volumeIdLow o.allowExplicitVolumeIdForTesting
            "explicit volume ID is restricted to tests/golden vectors" random
          .ok
            { volumeIdHigh := id.1, volumeIdLow := id.2
              volumeSize := UInt64.ofNat storageSize, partitionSize := o.partitionSize
              partitionCount := UInt32.ofNat count, indexRegionSize := o.indexRegionSize
              maxBlockPayload := o.maxBlockPayload
              persistenceQuantum := o.persistenceQuantum, createdTimeNs := o.createdTimeNs }

/-- The effects of `format`: both copies, then a flush. -/
def formatProgram (h : VolumeHeader) : WriteProg Status Item (Except Status Unit) :=
  .write 0 (.volume h) fun
    | .error st => .done (.error st)
    | .ok () => .write volumeHeaderCopySize (.volume h) fun
      | .error st => .done (.error st)
      | .ok () => .flush .done

/-! ## Volume header -/

/-- The options of `open`. -/
structure OpenOptions where
  writable : Bool := false
  verifyPayloadsOnOpen : Bool := false
  nextPartition : PartitionOptions := {}
  codecs : List CompressionCodec := []
  writerIdHigh : UInt64 := 0
  writerIdLow : UInt64 := 0
  allowExplicitWriterIdForTesting : Bool := false

/-- Which of the two copies to use. -/
def selectVolumeHeader (first second : Except Status VolumeHeader) : Except Status VolumeHeader :=
  match first, second with
  | .ok a, .ok b =>
    if a = b then .ok a else failWith .corrupt "valid volume header copies disagree"
  | .ok a, .error _ => .ok a
  | .error _, .ok b => .ok b
  | .error a, .error b =>
    if a.code = .unsupported then .error a
    else if b.code = .unsupported then .error b
    else if a.isIo then .error a
    else if b.isIo then .error b
    else failWith .corrupt "both volume headers are invalid"

/-- Read both copies of the volume header; one readable copy is enough. -/
def readVolumeHeader : Rd Status VolumeHeader := do
  let first ← Rd.attempt (Rd.readExact 0 volumeHeaderEncodedSize)
  let second ← Rd.attempt (Rd.readExact volumeHeaderCopySize volumeHeaderEncodedSize)
  match first, second with
  | .error st, .error _ => Rd.fail st
  | _, _ => Rd.lift (selectVolumeHeader (first.bind decodeVolumeHeader) (second.bind decodeVolumeHeader))

/-! ## Recovery of one slot -/

variable (env : Env)

/-- The bytes at the header position carry this volume's magic and ID. -/
def headerEvidence (raw : Bytes) : Bool :=
  slice raw 0 8 == partitionMagic && get64 raw 16 == env.volume.volumeIdHigh &&
    get64 raw 24 == env.volume.volumeIdLow

/-- The bytes at the footer position are a footer of this volume and slot. -/
def footerEvidence (slot : UInt32) (bytes : Bytes) : Bool :=
  match decodePartitionFooter bytes with
  | .ok f => f.slot == slot && f.volumeIdHigh == env.volume.volumeIdHigh &&
      f.volumeIdLow == env.volume.volumeIdLow
  | .error _ => false

/-- The bytes at the first block position are a block header of this volume and slot. -/
def blockEvidence (slot : UInt32) (bytes : Bytes) : Bool :=
  match decodeBlockHeader bytes with
  | .ok b => b.slot == slot && b.volumeIdHigh == env.volume.volumeIdHigh &&
      b.volumeIdLow == env.volume.volumeIdLow
  | .error _ => false

/-- Does a slot without a valid header still hold data of this volume? -/
def currentVolumeEvidence (slot : UInt32) : Rd Status Bool := do
  let raw ← Rd.readExact (env.partitionBase slot) partitionHeaderEncodedSize
  if raw.all (· == 0) then pure false
  else if headerEvidence env raw then pure true
  else do
    let footerBytes ← Rd.readExact (env.partitionBase slot + env.footerOffset)
      partitionFooterEncodedSize
    let blockBytes ← Rd.readExact (env.partitionBase slot + partitionHeaderRegionSize)
      blockHeaderEncodedSize
    pure (footerEvidence env slot footerBytes || blockEvidence env slot blockBytes)

/-- What a slot turned out to hold. -/
inductive SlotHeader
  | empty
  | damaged
  | valid (h : PartitionHeader)

/-- The header of a slot.  What fails its checks is empty, unless it is evidence of this volume. -/
def recoverHeader (strict : Bool) (slot : UInt32) : Rd Status SlotHeader := do
  match ← Rd.attempt (readPartitionHeader env slot) with
  | .ok h => pure (.valid h)
  | .error st =>
    if st.isIo then Rd.fail st
    else
      let evidence ← currentVolumeEvidence env slot
      if evidence then
        if st.code = .unsupported then Rd.fail st
        else if strict then Rd.fail st
        else pure .damaged
      else pure .empty

/-- The catalog entry of a partition with a valid footer. -/
def sealedState (h : PartitionHeader) (f : PartitionFooter) : PartitionState where
  header := h
  isSealed := true
  footer := f
  dataEnd := f.dataEnd.toNat
  aggregateFlags := f.flags
  blockCount := f.blockCount
  hasTime := f.blockCount != 0
  minTimeNs := f.minTimeNs
  maxTimeNs := f.maxTimeNs

/-- The catalog entry of a partition without a valid footer. -/
def scannedState (h : PartitionHeader) (scan : Scan) : PartitionState :=
  summarize { header := h, activeIndex := scan.entries, dataEnd := scan.dataEnd }

/-- Every stored field agrees. -/
def sameIndexEntry (a b : IndexEntry) : Bool :=
  a.offset == b.offset && a.frameSize == b.frameSize && a.frameSpan == b.frameSpan &&
  a.sequence == b.sequence && a.recordCount == b.recordCount && a.minTimeNs == b.minTimeNs &&
  a.maxTimeNs == b.maxTimeNs && a.flags == b.flags && a.rawSize == b.rawSize

/-- Strict verification reads every block. -/
def verifyBlocks (p : PartitionState) : List IndexEntry → Rd Status Unit
  | [] => pure ()
  | e :: es => do
    let _ ← readBlock env p e
    verifyBlocks p es

/-- Strict verification of a sealed partition. -/
def verifySealed (h : PartitionHeader) (f : PartitionFooter) : Rd Status Unit := do
  let indexed ← loadIndex env (sealedState h f)
  let scan ← scanPartition env h f.dataEnd.toNat
  if scan.dataEnd ≠ f.dataEnd.toNat ∨ scan.entries.length ≠ indexed.length then
    Rd.fail ⟨.corrupt, "strict sealed-partition verification failed"⟩
  else if ¬ (List.zipWith sameIndexEntry scan.entries indexed).all id then
    Rd.fail ⟨.corrupt, "sealed index disagrees with block scan"⟩
  else
    let totals := summarize { header := h, activeIndex := scan.entries }
    if f.flags ≠ totals.aggregateFlags ∨ f.minTimeNs ≠ totals.minTimeNs ∨
        f.maxTimeNs ≠ totals.maxTimeNs then
      Rd.fail ⟨.corrupt, "footer summary disagrees with block scan"⟩
    else verifyBlocks env (sealedState h f) indexed

/-- The footer of a partition, or the scan of its blocks if it has none. -/
def recoverPartition (strict : Bool) (h : PartitionHeader) : Rd Status PartitionState := do
  match ← Rd.attempt (readFooter env h) with
  | .ok f =>
    if strict then verifySealed env h f
    pure (sealedState h f)
  | .error st =>
    if st.isIo || st.code == .unsupported then Rd.fail st
    else
      let scan ← scanPartition env h 0
      let p := scannedState h scan
      if strict then verifyBlocks env p p.activeIndex
      pure p

/-! ## The recovery loop -/

/-- What the loop over the slots has found so far. -/
structure Recovery where
  partitions : List PartitionState := []
  corruptSlots : List UInt32 := []

/-- Only the newest footerless index stays resident. -/
def dropOlderIndexes (ps : List PartitionState) : List PartitionState :=
  let newest := ps.foldl (fun g p => max g p.header.generation) 0
  ps.map fun p =>
    if ¬ p.isSealed ∧ p.header.generation ≠ newest then { p with activeIndex := [] } else p

/-- The loop over the slots.  Generations are nonzero and differ. -/
def recoverSlots (strict : Bool) : List UInt32 → Recovery → Rd Status Recovery
  | [], r => pure r
  | slot :: slots, r => do
    match ← recoverHeader env strict slot with
    | .empty => recoverSlots strict slots r
    | .damaged => recoverSlots strict slots { r with corruptSlots := r.corruptSlots ++ [slot] }
    | .valid h =>
      if h.generation = 0 then Rd.fail ⟨.corrupt, "partition generation zero is reserved"⟩
      else if r.partitions.any fun p => p.header.generation == h.generation then
        Rd.fail ⟨.corrupt, "duplicate partition generation"⟩
      else
        let p ← recoverPartition env strict h
        recoverSlots strict slots { r with partitions := dropOlderIndexes (r.partitions ++ [p]) }

/-- The slots of the volume. -/
def slotList : List UInt32 := (List.range env.partitionCount).map UInt32.ofNat

/-- Clear the index of every footerless partition but the last. -/
def keepLastIndex : List PartitionState → List PartitionState
  | [] => []
  | [p] => [p]
  | p :: ps => (if p.isSealed then p else { p with activeIndex := [] }) :: keepLastIndex ps

/-- The store open builds from what it recovered. -/
def recoveredStore (o : OpenOptions) (writerId : UInt64 × UInt64) (r : Recovery) : Store :=
  let partitions := keepLastIndex (sortPartitions r.partitions)
  let newest := partitions.getLast?
  { env := env
    writable := o.writable
    partitions := partitions
    corruptSlots := r.corruptSlots
    activeGeneration := match newest with | some p => p.header.generation | none => 0
    activeSlot := match newest with | some p => p.header.slot | none => 0
    writerIdHigh := writerId.1
    writerIdLow := writerId.2
    nextOptions := o.nextPartition }

/-- The writer ID and the check of the next options; read-only stores have neither. -/
def prepareWriter (o : OpenOptions) (random : Except Status (UInt64 × UInt64)) :
    Except Status (UInt64 × UInt64) :=
  if o.writable then do
    let id ← chooseId o.writerIdHigh o.writerIdLow o.allowExplicitWriterIdForTesting
      "explicit writer ID is restricted to tests" random
    env.validatePartitionOptions o.nextPartition
    .ok id
  else .ok (0, 0)

end TFDB

namespace TFDB

open ByteLib

/-- The reading part of `open`. -/
def recover (storageSize : Nat) (o : OpenOptions) (random : Except Status (UInt64 × UInt64)) :
    Rd Status Store := do
  let volume ← readVolumeHeader
  Rd.lift (validateVolumeGeometry volume storageSize)
  let env : Env := { volume := volume, codecs := o.codecs }
  let writerId ← Rd.lift (prepareWriter env o random)
  let r ← recoverSlots env o.verifyPayloadsOnOpen (slotList env) {}
  pure (recoveredStore env o writerId r)

/-- The writing part of `open`: continue the newest partition or create the next one. -/
def startWriter : Writer Unit := do
  let s ← Wr.get
  if s.corruptSlots ≠ [] then
    Wr.fail ⟨.corrupt, "writable open refuses ambiguous damaged partition headers"⟩
  else
    match s.partitions.getLast? with
    | none => Writer.createPartition 0 1 s.nextOptions
    | some newest =>
      if newest.isSealed then
        if newest.header.generation = 0xffffffffffffffff then
          Wr.fail ⟨.generationExhausted, "partition generation exhausted"⟩
        else
          Writer.createPartition ((newest.header.slot + 1) % s.env.volume.partitionCount)
            (newest.header.generation + 1) s.nextOptions
      else pure ()

/-- `scan_blocks` and `query_blocks` on a store. -/
def Store.query (s : Store) (q : Query) : ReadProg Status (QueryState × Status) :=
  TFDB.query s.env q s.partitions s.corruptSlots

/-- Reads of an image: a window inside it, or an error. -/
def imageSource (m : Image) : Source Status := fun off n =>
  if off > m.size ∨ n > m.size - off then failWith .outOfRange "memory read outside image"
  else .ok (m.window off n)

end TFDB
