import TFDB.Ledger
import TFDB.Record

/-!
# The asynchronous writer

`async_writer.cpp` in front of a store: clients queue records, one worker thread takes them from
the queue and calls the store.  Every section under the writer's mutex is one function on
`AsyncWriter`; the calls of the store are serialized by the store's own mutex.

* `Shared` — a store with its session, the writer, and where the worker stands;
* `SharedStep` — one step of a client, of the worker or of the store.  The waiting worker may wake
  at any time, so that timeouts need no clock;
* `shared_tracked` — whatever the interleaving, the store makes a run of its own, and the records
  the worker reported as processed are among the accepted ones with their contracts.
-/

set_option autoImplicit false

namespace TFDB

open ByteLib Writer

/-! ## The writer -/

structure AsyncWriterOptions where
  queueCapacityRecords : Nat := 4096
  queueCapacityBytes : Nat := 4 * 1024 * 1024
  checkpointIntervalMs : Int64 := 1000

structure AsyncItem where
  bytes : Bytes
  timeNs : Int64
  flags : UInt32
  sequence : UInt64
  /-- The contract of a checked item. -/
  contract : Option AppendContract
  submittedAtNs : UInt64

structure AsyncWriterMetrics where
  submittedRecords : UInt64 := 0
  processedRecords : UInt64 := 0
  durableSequence : UInt64 := 0
  checkpointCalls : UInt64 := 0
  backgroundErrors : UInt64 := 0
  backpressureEvents : UInt64 := 0
  maximumQueuedRecords : Nat := 0
  maximumQueuedBytes : Nat := 0
  maximumQueueResidenceNs : UInt64 := 0
  maximumAcceptedToDurableNs : UInt64 := 0

structure AsyncWriter where
  options : AsyncWriterOptions := {}
  queue : List AsyncItem := []
  queuedBytes : Nat := 0
  running : Bool := false
  stopping : Bool := false
  checkpointRequested : Bool := false
  submittedSequence : UInt64 := 0
  processedSequence : UInt64 := 0
  requestedBarrier : UInt64 := 0
  completedBarrier : UInt64 := 0
  haveOldestUndurable : Bool := false
  oldestUndurableNs : UInt64 := 0
  metrics : AsyncWriterMetrics := {}
  backgroundStatus : Status := {}

def elapsedNs (start stop : UInt64) : UInt64 := if stop ≥ start then stop - start else 0

def intervalElapsed (started now interval : UInt64) : Bool :=
  decide (now ≥ started) && decide (now - started ≥ interval)

/-- What the worker does behind its first section: at most one call of the store. -/
structure Turn where
  item : Option AsyncItem := none
  doCheckpoint : Bool := false
  exitAfterCheckpoint : Bool := false
  dequeuedAtNs : UInt64 := 0

namespace AsyncWriter

/-- The options `start` accepts. -/
def optionsValid (o : AsyncWriterOptions) : Bool :=
  o.queueCapacityRecords != 0 && o.queueCapacityBytes != 0 && decide (o.checkpointIntervalMs > 0) &&
    decide (o.checkpointIntervalMs.toUInt64 ≤ 0xffffffffffffffff / 1000000)

/-- The section of `start`; `storeStatus` is what `writer_status` of the store returned. -/
def start (storeStatus : Status) (w : AsyncWriter) : Except Status AsyncWriter :=
  if w.running then failWith .busy "async writer already running"
  else if ¬ w.backgroundStatus.isOk then .error w.backgroundStatus
  else if ¬ storeStatus.isOk then .error storeStatus
  else if ¬ optionsValid w.options then failWith .invalidArgument "invalid async writer options"
  else .ok { options := w.options, running := true }

/-- `submit_impl`; `now` is the clock at the time of queueing. -/
def submitImpl (record : Bytes) (time : Int64) (flags : UInt32) (expected : Option AppendContract)
    (now : UInt64) (w : AsyncWriter) : Status × AsyncWriter :=
  if ¬ w.backgroundStatus.isOk then (w.backgroundStatus, w)
  else if ¬ w.running ∨ w.stopping then (⟨.closed, "async writer is not accepting"⟩, w)
  else if record = [] then (⟨.invalidArgument, "zero-length record"⟩, w)
  else if w.queue.length ≥ w.options.queueCapacityRecords ∨
      record.length > w.options.queueCapacityBytes - min w.queuedBytes w.options.queueCapacityBytes then
    (⟨.busy, "async writer queue is full"⟩,
      { w with metrics := { w.metrics with
          backpressureEvents := w.metrics.backpressureEvents + 1 } })
  else
    let item : AsyncItem := ⟨record, time, flags, w.submittedSequence + 1, expected, now⟩
    let queue := w.queue ++ [item]
    let queuedBytes := w.queuedBytes + record.length
    ({}, { w with
      submittedSequence := w.submittedSequence + 1
      queue := queue
      queuedBytes := queuedBytes
      haveOldestUndurable := true
      oldestUndurableNs := if w.haveOldestUndurable then w.oldestUndurableNs else now
      metrics := { w.metrics with
        submittedRecords := w.metrics.submittedRecords + 1
        maximumQueuedRecords := max w.metrics.maximumQueuedRecords queue.length
        maximumQueuedBytes := max w.metrics.maximumQueuedBytes queuedBytes } })

def submit (record : Bytes) (time : Int64) (flags : UInt32) (now : UInt64) (w : AsyncWriter) :
    Status × AsyncWriter :=
  submitImpl record time flags none now w

def submitChecked (record : Bytes) (time : Int64) (expected : AppendContract) (flags : UInt32)
    (now : UInt64) (w : AsyncWriter) : Status × AsyncWriter :=
  submitImpl record time flags (some expected) now w

/-- The section of `checkpoint` in front of its wait. -/
def requestCheckpoint (w : AsyncWriter) : Except Status AsyncWriter :=
  if ¬ w.backgroundStatus.isOk then .error w.backgroundStatus
  else if ¬ w.running then failWith .closed "async writer is not running"
  else .ok { w with
    requestedBarrier := max w.requestedBarrier w.submittedSequence, checkpointRequested := true }

/-- The first section of `stop`. -/
def requestStop (w : AsyncWriter) : AsyncWriter :=
  if w.running then
    { w with
      stopping := true, requestedBarrier := w.submittedSequence, checkpointRequested := true }
  else w

/-- The checkpoint interval in nanoseconds. -/
def intervalNs (w : AsyncWriter) : UInt64 := w.options.checkpointIntervalMs.toUInt64 * 1000000

/-- The first section of a turn of `run_loop`, behind its wait. -/
def takeTurn (checkpointStarted now dequeuedAt : UInt64) (w : AsyncWriter) : Turn × AsyncWriter :=
  let leaving := w.stopping && w.queue.isEmpty
  let doCheckpoint := intervalElapsed checkpointStarted now w.intervalNs ||
    (w.checkpointRequested && decide (w.processedSequence ≥ w.requestedBarrier)) || leaving
  match w.queue with
  | item :: queue =>
    if doCheckpoint then ({ doCheckpoint := true, exitAfterCheckpoint := leaving }, w)
    else ({ item := some item, dequeuedAtNs := dequeuedAt },
      { w with queue := queue, queuedBytes := w.queuedBytes - item.bytes.length })
  | [] => ({ doCheckpoint := doCheckpoint, exitAfterCheckpoint := leaving }, w)

/-- A background failure. -/
def failBackground (status : Status) (w : AsyncWriter) : AsyncWriter :=
  { w with
    metrics := { w.metrics with backgroundErrors := w.metrics.backgroundErrors + 1 }
    backgroundStatus := status
    running := false
    stopping := true
    queue := []
    queuedBytes := 0 }

/-- The bookkeeping of a processed item. -/
def finishItem (turn : Turn) (w : AsyncWriter) : AsyncWriter :=
  match turn.item with
  | none => w
  | some item =>
    { w with
      processedSequence := item.sequence
      metrics := { w.metrics with
        processedRecords := w.metrics.processedRecords + 1
        maximumQueueResidenceNs := max w.metrics.maximumQueueResidenceNs
          (elapsedNs item.submittedAtNs turn.dequeuedAtNs) } }

/-- The bookkeeping of a checkpoint. -/
def finishCheckpoint (durableAt : UInt64) (w : AsyncWriter) : AsyncWriter :=
  let advanced := decide (w.processedSequence > w.metrics.durableSequence)
  let aged := advanced && w.haveOldestUndurable
  { w with
    completedBarrier := w.processedSequence
    haveOldestUndurable := w.haveOldestUndurable && ! (aged && w.queue.isEmpty)
    oldestUndurableNs := match aged, w.queue with
      | true, item :: _ => item.submittedAtNs
      | _, _ => w.oldestUndurableNs
    checkpointRequested :=
      w.checkpointRequested && ! decide (w.processedSequence ≥ w.requestedBarrier)
    metrics := { w.metrics with
      checkpointCalls := w.metrics.checkpointCalls + 1
      durableSequence := w.processedSequence
      maximumAcceptedToDurableNs := if aged then
        max w.metrics.maximumAcceptedToDurableNs (elapsedNs w.oldestUndurableNs durableAt)
        else w.metrics.maximumAcceptedToDurableNs } }

/-- The last section of a turn: the writer, and whether the worker goes on. -/
def finishTurn (turn : Turn) (status : Status) (durableAt : UInt64) (w : AsyncWriter) :
    AsyncWriter × Bool :=
  if ¬ status.isOk then (failBackground status w, false)
  else
    let w := finishItem turn w
    let w := if turn.doCheckpoint then finishCheckpoint durableAt w else w
    if turn.exitAfterCheckpoint then ({ w with running := false }, false) else (w, true)

end AsyncWriter

/-- The record of an item. -/
def AsyncItem.accepted (item : AsyncItem) : AcceptedRecord :=
  ⟨item.bytes, item.timeNs, item.flags, item.contract⟩

/-- The append of an item. -/
def AsyncItem.op (item : AsyncItem) : Op :=
  match item.contract with
  | some expected => .appendChecked item.bytes item.timeNs expected item.flags
  | none => .append item.bytes item.timeNs item.flags

/-- The call a turn makes. -/
def Turn.op (turn : Turn) : Option Op :=
  if turn.doCheckpoint then some .checkpoint else turn.item.map AsyncItem.op

/-- The items a turn has processed when its call returns. -/
def Turn.processed (turn : Turn) : Except Status Unit → List AsyncItem
  | .ok () => if turn.doCheckpoint then [] else turn.item.toList
  | .error _ => []

/-! ## The writer in front of a store -/

inductive Worker
  /-- There is no thread, or it has ended. -/
  | ended
  /-- At the top of the loop, with the start of the checkpoint interval. -/
  | waiting (checkpointStarted : UInt64)
  /-- Between the sections, before the call. -/
  | calling (turn : Turn) (checkpointStarted : UInt64)
  /-- In the call. -/
  | inCall (turn : Turn) (checkpointStarted : UInt64)
  /-- Behind the call. -/
  | returned (turn : Turn) (status : Status) (checkpointStarted : UInt64)

structure Shared where
  sys : Sys
  session : Session
  writer : AsyncWriter := {}
  worker : Worker := .ended
  /-- The items whose call returned `Ok`, oldest first. -/
  processed : List AsyncItem := []

section
variable (env : Env)

inductive SharedStep : Shared → Shared → Prop
  | start (z : Shared) {storeStatus : Status} {w : AsyncWriter} (now : UInt64)
      (hw : z.worker = .ended) (h : z.writer.start storeStatus = .ok w) :
      SharedStep z { z with writer := w, worker := .waiting now }
  | submit (z : Shared) (record : Bytes) (time : Int64) (flags : UInt32)
      (expected : Option AppendContract) (now : UInt64) :
      SharedStep z { z with writer := (z.writer.submitImpl record time flags expected now).2 }
  | checkpoint (z : Shared) {w : AsyncWriter} (h : z.writer.requestCheckpoint = .ok w) :
      SharedStep z { z with writer := w }
  | stop (z : Shared) : SharedStep z { z with writer := z.writer.requestStop }
  | wake (z : Shared) {started : UInt64} (now dequeuedAt : UInt64) (hw : z.worker = .waiting started) :
      SharedStep z { z with
        writer := (z.writer.takeTurn started now dequeuedAt).2
        worker := .calling (z.writer.takeTurn started now dequeuedAt).1 started }
  /-- A turn without a call. -/
  | skip (z : Shared) {turn : Turn} {started : UInt64} (hw : z.worker = .calling turn started)
      (hop : turn.op = none) : SharedStep z { z with worker := .returned turn {} started }
  | workerCall (z : Shared) {turn : Turn} {started : UInt64} {op : Op} {s : Store} {last}
      (hw : z.worker = .calling turn started) (hop : turn.op = some op)
      (hp : z.sys.proc = .idle s last) :
      SharedStep z { z with
        sys := { z.sys with proc := .busy op (op.program s) }, worker := .inCall turn started }
  | workerReturn (z : Shared) {turn : Turn} {started : UInt64} {op : Op} {r : Except Status Unit}
      {s : Store} (hw : z.worker = .inCall turn started) (hop : turn.op = some op)
      (hp : z.sys.proc = .busy op (.done (r, s))) :
      SharedStep z { z with
        sys := { z.sys with proc := .idle s (some (op, r)) }
        session := z.session.returned op r
        worker := .returned turn (statusOf r) started
        processed := z.processed ++ turn.processed r }
  | finish (z : Shared) {turn : Turn} {status : Status} {started : UInt64} (durableAt : UInt64)
      (hw : z.worker = .returned turn status started) :
      SharedStep z { z with
        writer := (z.writer.finishTurn turn status durableAt).1
        worker := if (z.writer.finishTurn turn status durableAt).2 then
          .waiting (if turn.doCheckpoint then durableAt else started) else .ended }
  /-- The store goes on with a call, or another thread makes or ends one. -/
  | store (z : Shared) {x : Sys} {S : Session} (h : Observe env (z.sys, z.session) (x, S))
      (hw : (∀ turn started, z.worker ≠ .inCall turn started) ∨ ∃ op k, x.proc = .busy op k) :
      SharedStep z { z with sys := x, session := S }

/-- The runs of a store with a writer in front of it. -/
inductive SharedReach : Shared → Prop
  | construct {x : Sys} {S : Session} (h : Tracked env x S) (options : AsyncWriterOptions) :
      SharedReach { sys := x, session := S, writer := { options := options } }
  | step {z z' : Shared} (hz : SharedReach z) (h : SharedStep env z z') : SharedReach z'

end

theorem AsyncItem.op_submits (item : AsyncItem) : item.op.submits = some item.accepted := by
  unfold AsyncItem.op AsyncItem.accepted
  cases item.contract with
  | none => rfl
  | some c => rfl

/-- A processed item is the one whose append returned `Ok`. -/
theorem Turn.mem_processed {turn : Turn} {op : Op} {r : Except Status Unit} {item : AsyncItem}
    (hop : turn.op = some op) (hi : item ∈ turn.processed r) :
    r = .ok () ∧ op.submits = some item.accepted := by
  cases r with
  | error st => cases hi
  | ok u =>
    refine ⟨rfl, ?_⟩
    simp only [Turn.processed] at hi
    split at hi
    · cases hi
    · rename_i hcp
      rw [Turn.op, if_neg hcp, Option.mem_toList.mp hi] at hop
      rw [← Option.some.inj hop]
      exact item.op_submits

section
variable {env : Env}

theorem Session.mem_returned_ok {S : Session} {op : Op} {a : AcceptedRecord}
    (h : op.submits = some a) : a ∈ (S.returned op (.ok ())).accepted := by
  simp [Session.returned, Session.accepted, h]

theorem Session.mem_returned {S : Session} {op : Op} {r : Except Status Unit} {a : AcceptedRecord}
    (h : a ∈ S.accepted) : a ∈ (S.returned op r).accepted :=
  (S.extends_returned op r).accepted.mem h

/-- **The store behind a writer makes a run of its own**, and the items the worker processed are
accepted with their contracts. -/
theorem shared_tracked {z : Shared} (hz : SharedReach env z) :
    Tracked env z.sys z.session ∧ ∀ item ∈ z.processed, item.accepted ∈ z.session.accepted := by
  induction hz with
  | construct h options => exact ⟨h, fun item hi => by cases hi⟩
  | @step z z' hz h ih =>
    obtain ⟨ht, hproc⟩ := ih
    cases h with
    | start now hw h => exact ⟨ht, hproc⟩
    | submit record time flags expected now => exact ⟨ht, hproc⟩
    | checkpoint h => exact ⟨ht, hproc⟩
    | stop => exact ⟨ht, hproc⟩
    | wake now dequeuedAt hw => exact ⟨ht, hproc⟩
    | skip hw hop => exact ⟨ht, hproc⟩
    | @workerCall turn started op s last hw hop hp =>
      exact ⟨.step ht (.call z.sys z.session op hp), hproc⟩
    | @workerReturn turn started op r s hw hop hp =>
      refine ⟨.step ht (.returned z.sys z.session hp), fun item hi => ?_⟩
      rcases List.mem_append.mp hi with hi | hi
      · exact Session.mem_returned (hproc item hi)
      · obtain ⟨rfl, hsub⟩ := Turn.mem_processed hop hi
        exact Session.mem_returned_ok hsub
    | finish durableAt hw => exact ⟨ht, hproc⟩
    | @store x S h hw =>
      refine ⟨.step ht h, fun item hi => ?_⟩
      obtain ⟨hk, hd⟩ := ht.keeps
      exact (h.keeps hk hd).2.2.accepted.mem (hproc item hi)

end

end TFDB
