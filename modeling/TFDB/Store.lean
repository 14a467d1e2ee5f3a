import TFDB.Lib.Program
import TFDB.Codec

/-!
# The store object

The state of `RingStore::Impl`, the geometry it derives from the volume header and the checks
on partition options.  `Env` is the part that never changes while a store is open: the volume
header and the codecs it was opened with.

`Item` is what a write call carries.  Besides the bytes it keeps what they stand for: a frame
knows the records it was made from, a footer the index it closes.
-/

set_option autoImplicit false

namespace TFDB

open ByteLib

/-! ## Geometry -/

/-- `align_up`; `none` is the overflow flag. -/
def alignUp (value quantum : Nat) : Option Nat :=
  if quantum = 0 then none
  else if value % quantum = 0 then some value
  else if value > 2 ^ 64 - 1 - (quantum - value % quantum) then none
  else some (value + (quantum - value % quantum))

/-- The volume and the codecs a store was opened with. -/
structure Env where
  volume : VolumeHeader
  codecs : List CompressionCodec := []

namespace Env

def partitionSize (env : Env) : Nat := env.volume.partitionSize.toNat
def partitionCount (env : Env) : Nat := env.volume.partitionCount.toNat
def indexRegionSize (env : Env) : Nat := env.volume.indexRegionSize.toNat
def maxBlockPayload (env : Env) : Nat := env.volume.maxBlockPayload.toNat
def quantum (env : Env) : Nat := env.volume.persistenceQuantum.toNat

/-- Where a slot begins in the volume. -/
def partitionBase (env : Env) (slot : UInt32) : Nat :=
  volumePrefixSize + slot.toNat * env.partitionSize

/-- Where the index region begins in a partition. -/
def indexBegin (env : Env) : Nat :=
  env.partitionSize - partitionFooterRegionSize - env.indexRegionSize

/-- Where the footer begins in a partition. -/
def footerOffset (env : Env) : Nat := env.partitionSize - partitionFooterRegionSize

/-- The built-in codec if it has this version, else a registered one. -/
def codecFor (env : Env) (id : CompressionId) (version : UInt16) : Option CompressionCodec :=
  match builtInCodec id with
  | some codec =>
    if codec.version = version then some codec
    else env.codecs.find? fun c => c.id = id ∧ c.version = version
  | none => env.codecs.find? fun c => c.id = id ∧ c.version = version

/-- `validate_partition_options`: a codec, a time domain, and a whole record profile. -/
def validatePartitionOptions (env : Env) (o : PartitionOptions) : Except Status Unit :=
  if (env.codecFor o.compression o.compressionVersion).isNone then
    failWith .unsupported "compression codec/version unavailable"
  else if o.timeDomainId = 0 then
    failWith .invalidArgument "time domain zero is reserved for physical scans"
  else if (o.recordFormatId = 0) ≠ (o.recordFormatVersion = 0) then
    failWith .invalidArgument "record profile ID and version must both be zero or nonzero"
  else .ok ()

end Env

def isPowerOfTwo (value : UInt32) : Bool := value != 0 && value &&& (value - 1) == 0

/-- The geometry fits the storage, and a block of the largest payload fits a partition. -/
def validateVolumeGeometry (v : VolumeHeader) (backendSize : Nat) : Except Status Unit :=
  let quantum := v.persistenceQuantum.toNat
  if v.volumeIdHigh = 0 ∧ v.volumeIdLow = 0 then
    failWith .corrupt "zero volume incarnation ID"
  else if v.volumeSize.toNat > backendSize ∨ v.volumeSize.toNat < volumePrefixSize ∨
      v.partitionCount < 2 ∨ v.partitionSize = 0 ∨ ¬ isPowerOfTwo v.persistenceQuantum ∨
      quantum > partitionHeaderRegionSize ∨ v.maxBlockPayload = 0 ∨
      v.indexRegionSize.toNat < indexEntryEncodedSize ∨
      volumePrefixSize % quantum ≠ 0 ∨ partitionHeaderRegionSize % quantum ≠ 0 ∨
      v.partitionSize.toNat % quantum ≠ 0 ∨ v.indexRegionSize.toNat % quantum ≠ 0 then
    failWith .corrupt "invalid volume geometry"
  else
    let fixed := partitionHeaderRegionSize + partitionFooterRegionSize + v.indexRegionSize.toNat
    if fixed ≥ v.partitionSize.toNat ∨ v.partitionSize.toNat - fixed < quantum ∨
        v.partitionCount.toNat > (v.volumeSize.toNat - volumePrefixSize) / v.partitionSize.toNat then
      failWith .corrupt "volume geometry exceeds backend"
    else
      match alignUp (blockHeaderEncodedSize + v.maxBlockPayload.toNat) quantum with
      | none => failWith .corrupt "maximum block does not fit partition"
      | some maximumSpan =>
        if maximumSpan > v.partitionSize.toNat - fixed then
          failWith .corrupt "maximum block does not fit partition"
        else .ok ()

/-! ## Written items -/

/-- What the store writes; a frame keeps the raw data and a footer its entries. -/
inductive Item
  | volume (h : VolumeHeader)
  | header (h : PartitionHeader)
  | frame (b : BlockHeader) (payload raw : Bytes)
  | index (entries : List IndexEntry)
  | footer (f : PartitionFooter) (entries : List IndexEntry)

/-- The bytes of an item. -/
def Item.bytes (env : Env) : Item → Bytes
  | .volume h => encodeVolumeHeader h
  | .header h => encodePartitionHeader h env.volume.partitionSize env.volume.indexRegionSize
  | .frame b payload _ => encodeBlockHeader b ++ payload
  | .index entries => encodeIndex entries
  | .footer f _ => encodePartitionFooter f

/-! ## The catalog and the store -/

/-- The catalog entry of a partition. -/
structure PartitionState where
  header : PartitionHeader
  isSealed : Bool := false
  indexValid : Bool := false
  footer : PartitionFooter := {}
  activeIndex : List IndexEntry := []
  dataEnd : Nat := partitionHeaderRegionSize
  aggregateFlags : UInt32 := 0
  hasTime : Bool := false
  blockCount : UInt32 := 0
  minTimeNs : Int64 := 0
  maxTimeNs : Int64 := 0
  deriving DecidableEq

/-- The counters of a store. -/
structure StoreMetrics where
  acceptedRecords : UInt64 := 0
  acceptedPayloadBytes : UInt64 := 0
  publishedBlocks : UInt64 := 0
  storedBlockBytes : UInt64 := 0
  rawBlockBytes : UInt64 := 0
  checkpoints : UInt64 := 0
  rotations : UInt64 := 0
  timeAnomalies : UInt64 := 0
  durableRecords : UInt64 := 0
  durableBlocks : UInt64 := 0
  syncErrors : UInt64 := 0
  syncCalls : UInt64 := 0

/-- A store object. -/
structure Store where
  env : Env
  writable : Bool := false
  closed : Bool := false
  faulted : Bool := false
  faultStatus : Status := {}
  partitions : List PartitionState := []
  activeGeneration : UInt64 := 0
  activeSlot : UInt32 := 0
  writerIdHigh : UInt64 := 0
  writerIdLow : UInt64 := 0
  nextOptions : PartitionOptions := {}
  builder : Bytes := []
  builderRecords : UInt32 := 0
  builderFlags : UInt32 := 0
  builderMinTime : Int64 := 0
  builderMaxTime : Int64 := 0
  haveLastTime : Bool := false
  lastTime : Int64 := 0
  dirty : Bool := false
  haveUndurableRecords : Bool := false
  metrics : StoreMetrics := {}
  corruptSlots : List UInt32 := []

/-- Does the partition carry this generation in this slot? -/
def PartitionState.is (p : PartitionState) (generation : UInt64) (slot : UInt32) : Bool :=
  p.header.generation == generation && p.header.slot == slot

/-- Change the first partition that satisfies `c`. -/
def updateFirst (c : PartitionState → Bool) (f : PartitionState → PartitionState) :
    List PartitionState → List PartitionState
  | [] => []
  | p :: ps => if c p then f p :: ps else p :: updateFirst c f ps

namespace Store

/-- The partition that takes the next block. -/
def active (s : Store) : Option PartitionState :=
  s.partitions.find? (·.is s.activeGeneration s.activeSlot)

/-- Change the partition `active` returns. -/
def updateActive (s : Store) (f : PartitionState → PartitionState) : Store :=
  { s with partitions := updateFirst (·.is s.activeGeneration s.activeSlot) f s.partitions }

end Store

/-- `summarize`: the totals of a recovered index. -/
def summarize (p : PartitionState) : PartitionState :=
  p.activeIndex.foldl (fun p e =>
      { p with
        aggregateFlags := p.aggregateFlags ||| e.flags
        hasTime := true
        minTimeNs := if p.hasTime then min p.minTimeNs e.minTimeNs else e.minTimeNs
        maxTimeNs := if p.hasTime then max p.maxTimeNs e.maxTimeNs else e.maxTimeNs })
    { p with
      aggregateFlags := 0
      hasTime := false
      blockCount := UInt32.ofNat p.activeIndex.length }

/-- Order of the catalog. -/
def byGeneration (a b : PartitionState) : Bool := decide (a.header.generation ≤ b.header.generation)

/-- The catalog is kept in order of generations. -/
def sortPartitions (ps : List PartitionState) : List PartitionState := ps.mergeSort byGeneration

end TFDB
