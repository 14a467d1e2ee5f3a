import TFDB.Open

/-!
# Record profiles

`record_profile.cpp`: the `FramedRecordV1` envelope, `append_framed_record` and `query_records`.

A visitor is a function of what it has seen so far, as for block queries; `decodeBlock` threads
the state of its caller instead of calling back.
-/

set_option autoImplicit false

namespace TFDB

open ByteLib

structure RecordView where
  encoded : Bytes := []
  payload : Bytes := []
  indexTimeNs : Int64 := 0
  selector : UInt64 := 0
  flags : UInt16 := 0
  deriving DecidableEq

/-- A profile decodes a block record by record.  `visit` returns the next state and whether to go
on. -/
structure RecordProfile where
  id : UInt64
  version : UInt16
  decodeBlock : ∀ {σ : Type}, (σ → RecordView → σ × Bool) → Bytes → σ → σ × Status

/-! ## FramedRecordV1 -/

def framedRecordV1ProfileId : UInt64 := 0x5446444252465631

namespace FramedRecordV1

def headerSize : Nat := 32

/-- The frame with a CRC field of zero. -/
def unchecked (time : Int64) (selector : UInt64) (flags : UInt16) (payload : Bytes) : Bytes :=
  layout headerSize 0
    [(0, put32 (UInt32.ofNat (headerSize + payload.length))), (4, put16 32), (6, put16 flags),
     (8, put64 time.toUInt64), (16, put64 selector), (24, put32 (UInt32.ofNat payload.length))] ++
    payload

def encode (time : Int64) (selector : UInt64) (flags : UInt16) (payload : Bytes) :
    Except Status Bytes :=
  if payload.length > 0xffffffff - headerSize then failWith .outOfRange "framed payload too large"
  else
    let encoded := unchecked time selector flags payload
    .ok (put encoded 28 (put32 (crc32c encoded)))

/-- The sign of a stored time. -/
def decodeTime (encoded : UInt64) : Int64 :=
  if encoded &&& 0x8000000000000000 = 0 then encoded.toInt64
  else
    let magnitude := ~~~encoded + 1
    if magnitude = 0x8000000000000000 then Int64.minValue else -magnitude.toInt64

/-- One turn of the loop of `decode_block`: the record at the start of the bytes that are left. -/
def decodeRecord (data : Bytes) : Except Status RecordView :=
  if data.length < headerSize then failWith .corrupt "truncated FramedRecordV1 header"
  else
    let frameSize := get32 data 0
    let size := get16 data 4
    let payloadSize := get32 data 24
    if size ≠ 32 ∨ frameSize < size.toUInt32 ∨ frameSize ≠ size.toUInt32 + payloadSize ∨
        frameSize.toNat > data.length then
      failWith .corrupt "invalid FramedRecordV1 bounds"
    else
      let frame := slice data 0 frameSize.toNat
      if crc32cWithZeroedField frame 28 ≠ get32 data 28 then
        failWith .corrupt "FramedRecordV1 frame CRC mismatch"
      else
        .ok
          { encoded := frame
            payload := slice data headerSize payloadSize.toNat
            indexTimeNs := decodeTime (get64 data 8)
            selector := get64 data 16
            flags := get16 data 6 }

/-- The loop of `decode_block`; a step consumes at least a header. -/
def decodeLoop {σ : Type} (visit : σ → RecordView → σ × Bool) : Nat → Bytes → σ → σ × Status
  | 0, _, state => (state, {})
  | steps + 1, data, state =>
    if data = [] then (state, {})
    else
      match decodeRecord data with
      | .error st => (state, st)
      | .ok record =>
        match visit state record with
        | (state, false) => (state, {})
        | (state, true) => decodeLoop visit steps (data.drop record.encoded.length) state

def decodeBlock {σ : Type} (visit : σ → RecordView → σ × Bool) (block : Bytes) (state : σ) :
    σ × Status :=
  decodeLoop visit block.length block state

end FramedRecordV1

/-- `append_framed_record` up to the call of `append_checked`: the call it makes on a store whose
active partition it has just read. -/
def appendFramedRecord (s : Store) (time : Int64) (selector : UInt64) (flags : UInt16)
    (payload : Bytes) : Except Status Op := do
  match s.active with
  | none => failWith .closed "store has no active partition"
  | some p =>
    if p.header.options.recordFormatId ≠ framedRecordV1ProfileId ∨
        p.header.options.recordFormatVersion ≠ 1 then
      failWith .invalidArgument "active partition is not FramedRecordV1"
    else
      let encoded ← FramedRecordV1.encode time selector flags payload
      let storageFlags := if flags.toUInt32 &&& Writer.recordFlagUnsynchronizedTime ≠ 0 then
        Writer.recordFlagUnsynchronizedTime else 0
      .ok (.appendChecked encoded time
        ⟨framedRecordV1ProfileId, 1, p.header.options.timeDomainId⟩ storageFlags)

/-! ## Querying -/

structure RecordEvent where
  kind : BlockEventKind := .data
  block : BlockMetadata := {}
  record : RecordView := {}
  detail : Status := {}
  deriving DecidableEq

structure RecordQuery where
  time : TimeRange
  selectors : List UInt64 := []
  continueOnGap : Bool := true
  visitor : List RecordEvent → Bool := fun _ => true

/-- What the block visitor of `query_records` remembers. -/
structure RecordState where
  events : List RecordEvent := []
  keepGoing : Bool := true
  decodeStatus : Status := {}

namespace RecordQuery

def deliver (q : RecordQuery) (rs : RecordState) (ev : RecordEvent) : RecordState :=
  { rs with events := rs.events ++ [ev], keepGoing := q.visitor (rs.events ++ [ev]) }

/-- The record is in the range and its selector is asked for. -/
def selects (q : RecordQuery) (record : RecordView) : Bool :=
  ! (decide (record.indexTimeNs < q.time.beginNs) || decide (record.indexTimeNs ≥ q.time.endNs)) &&
    (q.selectors.isEmpty || q.selectors.contains record.selector)

/-- The record visitor handed to `decode_block`, with the count of decoded records. -/
def visitRecord (q : RecordQuery) (block : BlockMetadata) (state : RecordState × UInt32)
    (record : RecordView) : (RecordState × UInt32) × Bool :=
  let count := state.2 + 1
  if ¬ q.selects record then ((state.1, count), true)
  else
    let rs := q.deliver state.1 { block := block, record := record }
    ((rs, count), rs.keepGoing)

/-- The block visitor: the next state and whether to go on. -/
def visitBlock (q : RecordQuery) (profile : RecordProfile) (rs : RecordState) (ev : BlockEvent) :
    RecordState × Bool :=
  if ev.kind ≠ .data then
    let rs := q.deliver rs { kind := ev.kind, block := ev.metadata, detail := ev.detail }
    (rs, rs.keepGoing)
  else if ev.metadata.recordFormatId ≠ profile.id ∨
      ev.metadata.recordFormatVersion ≠ profile.version then
    ({ rs with decodeStatus := ⟨.unsupported, "record profile does not match partition"⟩ }, false)
  else
    match profile.decodeBlock (q.visitRecord ev.metadata) ev.data (rs, 0) with
    | ((rs, count), status) =>
      let status := if status.isOk ∧ rs.keepGoing ∧ count ≠ ev.metadata.recordCount then
        ⟨.corrupt, "block record count does not match profile decode"⟩ else status
      ({ rs with decodeStatus := status }, rs.keepGoing && status.isOk)

/-- The state of the block visitor after some events, and whether it went on. -/
def pass (q : RecordQuery) (profile : RecordProfile) (events : List BlockEvent) :
    RecordState × Bool :=
  events.foldl (fun state ev => q.visitBlock profile state.1 ev) ({}, true)

/-- The block query a record query makes. -/
def blocks (q : RecordQuery) (profile : RecordProfile) : Query where
  range := some q.time
  continueOnGap := q.continueOnGap
  visitor events := (q.pass profile events).2

end RecordQuery

end TFDB
