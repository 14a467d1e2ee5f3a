import TFDB.Lib.Medium
import TFDB.Open

/-!
# The system: a writer process on a crashing medium

A run starts with `format` on some storage and goes on with writable opens, mutating calls,
storage errors, process restarts and power cuts, one storage operation at a time.

* `Sys` — the medium, the writer IDs of all writable opens so far, and the process.
* `Step` — one step; what a power cut may leave is a parameter (`cut`), and so is the
  assumption on the states in which a volume is opened (`assumed`).
* `CollisionFree` — the assumption on checksums: bytes that pass one are a structure that
  was written there as a whole.
* `openReadOnly`, `scanBlocks` — what a reader makes of an image.
-/

set_option autoImplicit false

namespace TFDB

open ByteLib

/-! ## Processes and runs -/

/-- What the process is doing. -/
inductive Proc
  /-- `format` is running. -/
  | formatting (k : WriteProg Status Item (Except Status Unit))
  /-- No store object. -/
  | down
  /-- A writable open has recovered the volume and is about to create a partition or return. -/
  | opening (k : WriteProg Status Item (Except Status Unit × Store))
  /-- A call is running. -/
  | busy (op : Op) (k : WriteProg Status Item (Except Status Unit × Store))
  /-- The store waits for a call; `last` is what the last one returned. -/
  | idle (s : Store) (last : Option (Op × Except Status Unit))

/-- The state of a run.  `writers` lists the writer IDs of the writable opens, oldest first. -/
structure Sys where
  disk : Disk Item
  writers : List (UInt64 × UInt64) := []
  proc : Proc

/-- The effect of a storage operation of a running program.  The transfers of one item are one
pending write: power cuts that keep any of the bytes do not tell them apart (`issue_transfers`). -/
inductive Effect {α : Type} (env : Env) (d : Disk Item) :
    WriteProg Status Item α → Disk Item → WriteProg Status Item α → Prop
  | write (off : Nat) (i : Item) (k : Except Status Unit → WriteProg Status Item α) :
      Effect env d (.write off i k) (d.issue off i (i.bytes env).length) (k (.ok ()))
  /-- A failed write may have transferred any prefix. -/
  | writeFails (off : Nat) (i : Item) (k : Except Status Unit → WriteProg Status Item α)
      (n : Nat) (st : Status) :
      Effect env d (.write off i k) (d.issue off i n) (k (.error st))
  | flush (k : Except Status Unit → WriteProg Status Item α) :
      Effect env d (.flush k) (d.flush (Item.bytes env)) (k (.ok ()))
  | flushFails (k : Except Status Unit → WriteProg Status Item α) (st : Status) :
      Effect env d (.flush k) d (k (.error st))

/-- The reading part of a writable open on what the machine sees. -/
def recoverOn (env : Env) (m : Image) (o : OpenOptions) (writerId : UInt64 × UInt64) :
    Except Status Store :=
  Rd.run (imageSource m) (recover m.size { o with codecs := env.codecs } (.ok writerId))

section
variable (env : Env) (cut : Disk Item → Image → Prop) (assumed : Disk Item → Prop)

/-- One step of a run: a storage operation, a call, or a crash that `cut` allows.  An open relies on
what is `assumed` of the storage. -/
inductive Step : Sys → Sys → Prop
  | formatEffect (x : Sys) {k k' d'} (hp : x.proc = .formatting k) (h : Effect env x.disk k d' k') :
      Step x { x with disk := d', proc := .formatting k' }
  | formatted (x : Sys) (r : Except Status Unit) (hp : x.proc = .formatting (.done r)) :
      Step x { x with proc := .down }
  | startOpen (x : Sys) {s : Store} (o : OpenOptions) (id : UInt64 × UInt64) (hp : x.proc = .down)
      (hassumed : assumed x.disk) (hw : o.writable = true) (hfresh : id ∉ x.writers) (hid : id ≠ (0, 0))
      (h : recoverOn env (x.disk.volatile (Item.bytes env)) o id = .ok s)
      (hwid : (s.writerIdHigh, s.writerIdLow) = id) :
      Step x { x with
        writers := x.writers ++ [id]
        proc := .opening (startWriter s) }
  | openEffect (x : Sys) {k k' d'} (hp : x.proc = .opening k) (h : Effect env x.disk k d' k') :
      Step x { x with disk := d', proc := .opening k' }
  | opened (x : Sys) (s : Store) (hp : x.proc = .opening (.done (.ok (), s))) :
      Step x { x with proc := .idle s none }
  | openFailed (x : Sys) (st : Status) (s : Store) (hp : x.proc = .opening (.done (.error st, s))) :
      Step x { x with proc := .down }
  | call (x : Sys) {s : Store} {last} (op : Op) (hp : x.proc = .idle s last) :
      Step x { x with proc := .busy op (op.program s) }
  | effect (x : Sys) {op k k' d'} (hp : x.proc = .busy op k) (h : Effect env x.disk k d' k') :
      Step x { x with disk := d', proc := .busy op k' }
  | returned (x : Sys) {op r} {s : Store} (hp : x.proc = .busy op (.done (r, s))) :
      Step x { x with proc := .idle s (some (op, r)) }
  /-- The process ends or is killed; nothing written is lost. -/
  | restart (x : Sys) : Step x { x with proc := .down }
  | powerCut (x : Sys) (m : Image) (h : cut x.disk m) :
      Step x { x with disk := x.disk.restart m, proc := .down }

/-- The first state of a run: `format` is about to write. -/
structure Initial (x : Sys) : Prop where
  size : ∃ (o : VolumeOptions) (random : Except Status (UInt64 × UInt64)),
    formatHeader x.disk.durable.size o random = .ok env.volume
  nonzero : env.volume.volumeIdHigh ≠ 0 ∨ env.volume.volumeIdLow ≠ 0
  small : x.disk.durable.size < 2 ^ 64
  pending : x.disk.pending = []
  issued : x.disk.issued = []
  flushed : x.disk.flushed = []
  writers : x.writers = []
  proc : x.proc = .formatting (formatProgram env.volume)

/-- The states of the runs from `format` on. -/
inductive Reach : Sys → Prop
  | init {x : Sys} (h : Initial env x) : Reach x
  | step {x y : Sys} (hx : Reach x) (h : Step env cut assumed x y) : Reach y

end

/-! ## The assumption on checksums -/

/-- The bytes pass the check of a structure of this kind. -/
def Checks (bytes magic : Bytes) (size crcOffset : Nat) : Prop :=
  commonCheck bytes magic size crcOffset = .ok ()

/-- Bytes of an image that pass a checksum, at a position where the format keeps a structure,
and that carry this volume's ID, are a structure that was written there as a whole. -/
structure CollisionFree (env : Env) (issued : List (Nat × Item)) (m : Image) : Prop where
  volume : ∀ off, off = 0 ∨ off = volumeHeaderCopySize → ∀ v,
    decodeVolumeHeader (m.window off volumeHeaderEncodedSize) = .ok v →
      (off, .volume v) ∈ issued
  header : ∀ slot : UInt32, slot < env.volume.partitionCount →
    let bytes := m.window (env.partitionBase slot) partitionHeaderEncodedSize
    Checks bytes partitionMagic partitionHeaderEncodedSize 104 →
    get64 bytes 16 = env.volume.volumeIdHigh → get64 bytes 24 = env.volume.volumeIdLow →
      ∃ h, (env.partitionBase slot, .header h) ∈ issued ∧ bytes = Item.bytes env (.header h)
  footer : ∀ slot : UInt32, slot < env.volume.partitionCount →
    let off := env.partitionBase slot + env.footerOffset
    let bytes := m.window off partitionFooterEncodedSize
    Checks bytes footerMagic partitionFooterEncodedSize 100 →
    get64 bytes 16 = env.volume.volumeIdHigh → get64 bytes 24 = env.volume.volumeIdLow →
      ∃ f es, (off, .footer f es) ∈ issued ∧ bytes = Item.bytes env (.footer f es)
  frame : ∀ slot : UInt32, slot < env.volume.partitionCount → ∀ o,
    partitionHeaderRegionSize ≤ o → o + blockHeaderEncodedSize ≤ env.indexBegin →
    o % env.quantum = 0 → ∀ b,
    decodeBlockHeader (m.window (env.partitionBase slot + o) blockHeaderEncodedSize) = .ok b →
    b.volumeIdHigh = env.volume.volumeIdHigh → b.volumeIdLow = env.volume.volumeIdLow →
    let payload := m.window (env.partitionBase slot + o + blockHeaderEncodedSize) b.storedSize.toNat
    crc32c payload = b.payloadCrc →
      ∃ raw, (env.partitionBase slot + o, .frame b payload raw) ∈ issued
  index : ∀ slot : UInt32, slot < env.volume.partitionCount → ∀ f es,
    (env.partitionBase slot + env.footerOffset, .footer f es) ∈ issued →
    let bytes := m.window (env.partitionBase slot + env.indexBegin) f.indexSize.toNat
    crc32c bytes = f.indexCrc → bytes = encodeIndex es

/-- The collision assumption on what the machine sees. -/
def CollisionFreeNow (env : Env) (d : Disk Item) : Prop :=
  CollisionFree env d.issued (d.volatile (Item.bytes env))

/-! ## Readers -/

/-- A read-only, non-strict open of an image. -/
def openReadOnly (codecs : List CompressionCodec) (m : Image) : Except Status Store :=
  Rd.run (imageSource m) (recover m.size { codecs := codecs } (.ok (0, 0)))

/-- The events and the status of `scan_blocks` on an image. -/
def scanBlocks (s : Store) (m : Image) : QueryState × Status :=
  ReadProg.run (imageSource m) (s.query {})

end TFDB
