import TFDB.Async

/-!
# One session of the asynchronous writer

A session runs from a successful `start` to the end of its worker.  Clients submit, wait for
checkpoints and stop the writer; the worker takes items and calls the store.  Every section under
the writer's mutex is one step, and the store may answer a call with any status.

* `AsyncSession`, `AsyncStep`, `AsyncReach` — the writer, its worker and a log of what was
  accepted, called and returned;
* `Covered` — the first submissions of a log were appended before a checkpoint that succeeded;
* `Fifo` — the invariant of a session, kept by every step (`Fifo.step`);
* `async_fifo` — the calls of the worker follow the accepted submissions, one for one and in
  order, and a clean stop leaves nothing out;
* `shared_session` — a writer in front of a store (`SharedReach`) makes such sessions.
-/

set_option autoImplicit false

namespace TFDB

open ByteLib Writer

/-! ## Logs -/

/-- What happens in a session, as its log keeps it. -/
inductive AsyncEvent
  /-- A submission returned `Ok`. -/
  | accepted (record : AcceptedRecord)
  /-- The worker calls the store. -/
  | called (op : Op)
  /-- The call returns; an exception of the store counts as the status `run` makes of it. -/
  | returned (op : Op) (status : Status)
  /-- A `checkpoint` returns that had found `before` submissions accepted. -/
  | synced (before : Nat) (status : Status)
  /-- A `stop` returns. -/
  | stopped (status : Status)

@[simp] def AsyncEvent.submission : AsyncEvent → Option AcceptedRecord
  | .accepted a => some a
  | _ => none

@[simp] def AsyncEvent.append : AsyncEvent → Option AcceptedRecord
  | .called op => op.submits
  | _ => none

@[simp] def AsyncEvent.appended : AsyncEvent → Option AcceptedRecord
  | .returned op status => if status.isOk then op.submits else none
  | _ => none

/-- The accepted submissions, oldest first. -/
def submissions (log : List AsyncEvent) : List AcceptedRecord := log.filterMap AsyncEvent.submission

/-- The appends the worker called, oldest first. -/
def appends (log : List AsyncEvent) : List AcceptedRecord := log.filterMap AsyncEvent.append

/-- The appends that returned `Ok`, oldest first. -/
def appendeds (log : List AsyncEvent) : List AcceptedRecord := log.filterMap AsyncEvent.appended

/-- The first `k` submissions were appended before the start of a checkpoint of the store that
returned `Ok`. -/
def Covered (log : List AsyncEvent) (k : Nat) : Prop :=
  k = 0 ∨ ∃ l₁ l₂ l₃ status,
    log = l₁ ++ .called .checkpoint :: l₂ ++ .returned .checkpoint status :: l₃ ∧
    status.isOk = true ∧ (∀ op, .called op ∉ l₂) ∧
    appendeds l₁ <+: submissions log ∧ k ≤ (appendeds l₁).length

/-! ## Sessions -/

/-- `checkpoint` behind its wait; nothing while it waits. -/
def AsyncWriter.awaitBarrier (target : UInt64) (w : AsyncWriter) : Option Status :=
  if w.completedBarrier ≥ target ∨ ¬ w.backgroundStatus.isOk ∨ ¬ w.running then
    if ¬ w.backgroundStatus.isOk then some w.backgroundStatus
    else if w.completedBarrier < target then
      some ⟨.closed, "async writer stopped before checkpoint"⟩
    else some {}
  else none

/-- A `checkpoint` that waits: its target, and how many submissions were accepted when it read
that. -/
structure WaitingBarrier where
  target : UInt64
  before : Nat

structure AsyncSession where
  writer : AsyncWriter
  worker : Worker
  barriers : List WaitingBarrier := []
  log : List AsyncEvent := []

inductive AsyncStep : AsyncSession → AsyncSession → Prop
  | submit (z : AsyncSession) (record : Bytes) (time : Int64) (flags : UInt32)
      (expected : Option AppendContract) (now : UInt64) :
      AsyncStep z { z with
        writer := (z.writer.submitImpl record time flags expected now).2
        log := z.log ++ if (z.writer.submitImpl record time flags expected now).1.isOk then
          [.accepted ⟨record, time, flags, expected⟩] else [] }
  | checkpoint (z : AsyncSession) {w : AsyncWriter} (h : z.writer.requestCheckpoint = .ok w) :
      AsyncStep z { z with
        writer := w
        barriers := z.barriers ++ [⟨z.writer.submittedSequence, (submissions z.log).length⟩] }
  | checkpointReturn (z : AsyncSession) {bs cs : List WaitingBarrier} {b : WaitingBarrier}
      {status : Status} (hb : z.barriers = bs ++ b :: cs)
      (h : z.writer.awaitBarrier b.target = some status) :
      AsyncStep z { z with barriers := bs ++ cs, log := z.log ++ [.synced b.before status] }
  | stop (z : AsyncSession) : AsyncStep z { z with writer := z.writer.requestStop }
  /-- `stop` behind the join. -/
  | stopReturn (z : AsyncSession) (hw : z.worker = .ended) :
      AsyncStep z { z with log := z.log ++ [.stopped z.writer.backgroundStatus] }
  | wake (z : AsyncSession) {started : UInt64} (now dequeuedAt : UInt64)
      (hw : z.worker = .waiting started) :
      AsyncStep z { z with
        writer := (z.writer.takeTurn started now dequeuedAt).2
        worker := .calling (z.writer.takeTurn started now dequeuedAt).1 started }
  | skip (z : AsyncSession) {turn : Turn} {started : UInt64} (hw : z.worker = .calling turn started)
      (hop : turn.op = none) : AsyncStep z { z with worker := .returned turn {} started }
  | workerCall (z : AsyncSession) {turn : Turn} {started : UInt64} {op : Op}
      (hw : z.worker = .calling turn started) (hop : turn.op = some op) :
      AsyncStep z { z with worker := .inCall turn started, log := z.log ++ [.called op] }
  | workerReturn (z : AsyncSession) {turn : Turn} {started : UInt64} {op : Op} (status : Status)
      (hw : z.worker = .inCall turn started) (hop : turn.op = some op) :
      AsyncStep z { z with
        worker := .returned turn status started, log := z.log ++ [.returned op status] }
  | finish (z : AsyncSession) {turn : Turn} {status : Status} {started : UInt64}
      (durableAt : UInt64) (hw : z.worker = .returned turn status started) :
      AsyncStep z { z with
        writer := (z.writer.finishTurn turn status durableAt).1
        worker := if (z.writer.finishTurn turn status durableAt).2 then
          .waiting (if turn.doCheckpoint then durableAt else started) else .ended }

/-- The runs from one state to another. -/
inductive AsyncSteps : AsyncSession → AsyncSession → Prop
  | refl (z : AsyncSession) : AsyncSteps z z
  | step {z z' z'' : AsyncSession} (h : AsyncSteps z z') (hs : AsyncStep z' z'') : AsyncSteps z z''

/-- The states of a session, from a `start` of any writer on. -/
inductive AsyncReach : AsyncSession → Prop
  | start {w₀ w : AsyncWriter} {storeStatus : Status} (now : UInt64)
      (h : w₀.start storeStatus = .ok w) : AsyncReach { writer := w, worker := .waiting now }
  | step {z z' : AsyncSession} (hz : AsyncReach z) (h : AsyncStep z z') : AsyncReach z'

theorem AsyncReach.steps {z z' : AsyncSession} (hz : AsyncReach z) (h : AsyncSteps z z') :
    AsyncReach z' := by
  induction h with
  | refl => exact hz
  | step h hs ih => exact .step ih hs

/-! ## Lists of events -/

@[simp] theorem submissions_append (l₁ l₂ : List AsyncEvent) :
    submissions (l₁ ++ l₂) = submissions l₁ ++ submissions l₂ := List.filterMap_append

@[simp] theorem appends_append (l₁ l₂ : List AsyncEvent) :
    appends (l₁ ++ l₂) = appends l₁ ++ appends l₂ := List.filterMap_append

@[simp] theorem appendeds_append (l₁ l₂ : List AsyncEvent) :
    appendeds (l₁ ++ l₂) = appendeds l₁ ++ appendeds l₂ := List.filterMap_append

@[simp] theorem submissions_singleton (e : AsyncEvent) :
    submissions [e] = e.submission.toList := by
  rw [submissions, List.filterMap_cons]
  cases e.submission <;> rfl

@[simp] theorem appends_singleton (e : AsyncEvent) : appends [e] = e.append.toList := by
  rw [appends, List.filterMap_cons]
  cases e.append <;> rfl

@[simp] theorem appendeds_singleton (e : AsyncEvent) : appendeds [e] = e.appended.toList := by
  rw [appendeds, List.filterMap_cons]
  cases e.appended <;> rfl

/-- A log that grows keeps what it covered. -/
theorem Covered.append {log : List AsyncEvent} {k : Nat} (h : Covered log k) (l : List AsyncEvent) :
    Covered (log ++ l) k := by
  rcases h with h | ⟨l₁, l₂, l₃, status, hlog, hok, hcall, hpre, hk⟩
  · exact .inl h
  · refine .inr ⟨l₁, l₂, l₃ ++ l, status, by simp [hlog], hok, hcall, ?_, hk⟩
    rw [submissions_append]
    exact hpre.trans (List.prefix_append _ _)

theorem Covered.mono {log : List AsyncEvent} {j k : Nat} (h : Covered log k) (hj : j ≤ k) :
    Covered log j := by
  rcases h with h | ⟨l₁, l₂, l₃, status, hlog, hok, hcall, hpre, hk⟩
  · exact .inl (by omega)
  · exact .inr ⟨l₁, l₂, l₃, status, hlog, hok, hcall, hpre, by omega⟩

/-- A checkpoint of the store is under way that started when `n` appends had returned. -/
def Covering (log : List AsyncEvent) (n : Nat) : Prop :=
  ∃ l₁ l₂, log = l₁ ++ .called .checkpoint :: l₂ ∧ (∀ op, .called op ∉ l₂) ∧
    appendeds l₁ <+: submissions log ∧ n ≤ (appendeds l₁).length

theorem Covering.append {log : List AsyncEvent} {n : Nat} (h : Covering log n) {l : List AsyncEvent}
    (hl : ∀ op, .called op ∉ l) : Covering (log ++ l) n := by
  obtain ⟨l₁, l₂, hlog, hcall, hpre, hn⟩ := h
  refine ⟨l₁, l₂ ++ l, by simp [hlog], fun op hop => ?_, ?_, hn⟩
  · rcases List.mem_append.mp hop with hop | hop
    · exact hcall op hop
    · exact hl op hop
  · rw [submissions_append]
    exact hpre.trans (List.prefix_append _ _)

theorem Covering.returned {log : List AsyncEvent} {n : Nat} (h : Covering log n) {status : Status}
    (hok : status.isOk = true) : Covered (log ++ [.returned .checkpoint status]) n := by
  obtain ⟨l₁, l₂, hlog, hcall, hpre, hn⟩ := h
  refine .inr ⟨l₁, l₂, [], status, by simp [hlog], hok, hcall, ?_, hn⟩
  rw [submissions_append]
  exact hpre.trans (List.prefix_append _ _)

/-! ## Where an item is -/

/-- The turn between the sections of the worker. -/
def Worker.turn : Worker → Option Turn
  | .calling turn _ => some turn
  | .inCall turn _ => some turn
  | .returned turn _ _ => some turn
  | _ => none

/-- The item the worker has taken and not reported yet. -/
def Worker.taken (w : Worker) : List AsyncItem := (w.turn.bind Turn.item).toList

/-- The item taken whose append is not called yet. -/
def Worker.uncalled : Worker → List AsyncItem
  | .calling turn _ => turn.item.toList
  | _ => []

/-- The item whose append is called and has not returned `Ok`. -/
def Worker.unanswered : Worker → List AsyncItem
  | .inCall turn _ => turn.item.toList
  | .returned turn status _ => if status.isOk then [] else turn.item.toList
  | _ => []

/-- The item whose append returned `Ok` and that is not reported as processed. -/
def Worker.unreported : Worker → List AsyncItem
  | .returned turn status _ => if status.isOk then turn.item.toList else []
  | _ => []

/-- The items carry the numbers after `n`. -/
def Sequenced : Nat → List AsyncItem → Prop
  | _, [] => True
  | n, item :: l => item.sequence = .ofNat (n + 1) ∧ Sequenced (n + 1) l

theorem Sequenced.concat {item : AsyncItem} :
    ∀ {l : List AsyncItem} {n : Nat}, Sequenced n l →
      item.sequence = .ofNat (n + l.length + 1) → Sequenced n (l ++ [item])
  | [], _, _, h => ⟨h, trivial⟩
  | a :: l, n, hl, h => by
    refine ⟨hl.1, hl.2.concat ?_⟩
    rw [h, List.length_cons]
    congr 1
    omega

theorem Worker.taken_length (w : Worker) : w.taken.length ≤ 1 := by
  unfold Worker.taken
  cases w.turn.bind Turn.item with
  | none => exact Nat.zero_le _
  | some item => exact Nat.le_refl _

/-! ## The sections of the writer -/

/-- What the sections of clients and the first one of the worker leave alone. -/
structure SameProgress (w w' : AsyncWriter) : Prop where
  options : w'.options = w.options
  running : w'.running = w.running
  stopping : w.stopping = true → w'.stopping = true
  processed : w'.processedSequence = w.processedSequence
  completed : w'.completedBarrier = w.completedBarrier
  durable : w'.metrics.durableSequence = w.metrics.durableSequence
  status : w'.backgroundStatus = w.backgroundStatus

/-- A submission that is refused, and one that is accepted. -/
theorem submitImpl_cases (w : AsyncWriter) (record : Bytes) (time : Int64) (flags : UInt32)
    (expected : Option AppendContract) (now : UInt64) :
    SameProgress w (w.submitImpl record time flags expected now).2 ∧
    (((w.submitImpl record time flags expected now).1.isOk = false ∧
        (w.submitImpl record time flags expected now).2.queue = w.queue ∧
        (w.submitImpl record time flags expected now).2.queuedBytes = w.queuedBytes ∧
        (w.submitImpl record time flags expected now).2.submittedSequence = w.submittedSequence) ∨
      ((w.submitImpl record time flags expected now).1.isOk = true ∧
        w.backgroundStatus.isOk = true ∧ w.running = true ∧ w.stopping = false ∧
        w.queue.length < w.options.queueCapacityRecords ∧
        record.length ≤ w.options.queueCapacityBytes -
          min w.queuedBytes w.options.queueCapacityBytes ∧
        (w.submitImpl record time flags expected now).2.queue =
          w.queue ++ [⟨record, time, flags, w.submittedSequence + 1, expected, now⟩] ∧
        (w.submitImpl record time flags expected now).2.queuedBytes =
          w.queuedBytes + record.length ∧
        (w.submitImpl record time flags expected now).2.submittedSequence =
          w.submittedSequence + 1)) := by
  unfold AsyncWriter.submitImpl
  split
  · rename_i hbg
    exact ⟨⟨rfl, rfl, id, rfl, rfl, rfl, rfl⟩, .inl ⟨Bool.eq_false_iff.mpr hbg, rfl, rfl, rfl⟩⟩
  rename_i hbg
  split
  · exact ⟨⟨rfl, rfl, id, rfl, rfl, rfl, rfl⟩, .inl ⟨rfl, rfl, rfl, rfl⟩⟩
  rename_i hrun
  split
  · exact ⟨⟨rfl, rfl, id, rfl, rfl, rfl, rfl⟩, .inl ⟨rfl, rfl, rfl, rfl⟩⟩
  split
  · exact ⟨⟨rfl, rfl, id, rfl, rfl, rfl, rfl⟩, .inl ⟨rfl, rfl, rfl, rfl⟩⟩
  rename_i hroom
  obtain ⟨hrunning, hstopping⟩ := not_or.mp hrun
  obtain ⟨hrecords, hbytes⟩ := not_or.mp hroom
  refine ⟨⟨rfl, rfl, id, rfl, rfl, rfl, rfl⟩, .inr ⟨rfl, not_not.mp hbg, not_not.mp hrunning,
    Bool.eq_false_iff.mpr hstopping, Nat.lt_of_not_le hrecords, Nat.le_of_not_lt hbytes,
    rfl, rfl, rfl⟩⟩

theorem requestCheckpoint_same {w w' : AsyncWriter} (h : w.requestCheckpoint = .ok w') :
    SameProgress w w' ∧ w'.queue = w.queue ∧ w'.queuedBytes = w.queuedBytes ∧
      w'.submittedSequence = w.submittedSequence := by
  unfold AsyncWriter.requestCheckpoint at h
  split at h
  · cases h
  split at h
  · cases h
  · cases h
    exact ⟨⟨rfl, rfl, id, rfl, rfl, rfl, rfl⟩, rfl, rfl, rfl⟩

theorem requestStop_same (w : AsyncWriter) :
    SameProgress w w.requestStop ∧ w.requestStop.queue = w.queue ∧
      w.requestStop.queuedBytes = w.queuedBytes ∧
      w.requestStop.submittedSequence = w.submittedSequence := by
  unfold AsyncWriter.requestStop
  split
  · exact ⟨⟨rfl, rfl, fun _ => rfl, rfl, rfl, rfl, rfl⟩, rfl, rfl, rfl⟩
  · exact ⟨⟨rfl, rfl, id, rfl, rfl, rfl, rfl⟩, rfl, rfl, rfl⟩

/-- A turn takes the first item, or leaves the queue as it is. -/
theorem takeTurn_cases (w : AsyncWriter) (started now dequeuedAt : UInt64) :
    (∃ item queue, w.queue = item :: queue ∧ w.takeTurn started now dequeuedAt =
      ({ item := some item, dequeuedAtNs := dequeuedAt },
        { w with queue := queue, queuedBytes := w.queuedBytes - item.bytes.length })) ∨
    ∃ turn, w.takeTurn started now dequeuedAt = (turn, w) ∧ turn.item = none ∧
      (turn.exitAfterCheckpoint = true →
        turn.doCheckpoint = true ∧ w.stopping = true ∧ w.queue = []) := by
  unfold AsyncWriter.takeTurn
  cases hq : w.queue with
  | cons item queue =>
    simp only [List.isEmpty_cons, Bool.and_false, Bool.or_false]
    split
    · exact .inr ⟨_, rfl, rfl, fun h => by cases h⟩
    · exact .inl ⟨item, queue, rfl, rfl⟩
  | nil =>
    refine .inr ⟨_, rfl, rfl, fun h => ?_⟩
    simp only [List.isEmpty_nil, Bool.and_true] at h ⊢
    exact ⟨by simp [h], h, trivial⟩

/-- The last section of a turn whose call failed. -/
theorem finishTurn_failed {turn : Turn} {status : Status} (durableAt : UInt64) (w : AsyncWriter)
    (h : status.isOk = false) :
    w.finishTurn turn status durableAt = (w.failBackground status, false) := by
  unfold AsyncWriter.finishTurn
  rw [if_pos (by simp [h])]

/-- The last section of a turn whose call succeeded. -/
theorem finishTurn_ok {turn : Turn} {status : Status} (durableAt : UInt64) (w : AsyncWriter)
    (h : status.isOk = true) :
    ((w.finishTurn turn status durableAt).1.options = w.options ∧
      (w.finishTurn turn status durableAt).1.queue = w.queue ∧
      (w.finishTurn turn status durableAt).1.queuedBytes = w.queuedBytes ∧
      (w.finishTurn turn status durableAt).1.stopping = w.stopping ∧
      (w.finishTurn turn status durableAt).1.submittedSequence = w.submittedSequence ∧
      (w.finishTurn turn status durableAt).1.backgroundStatus = w.backgroundStatus) ∧
    ((w.finishTurn turn status durableAt).1.processedSequence =
        (turn.item.map AsyncItem.sequence).getD w.processedSequence) ∧
    ((w.finishTurn turn status durableAt).1.completedBarrier =
        if turn.doCheckpoint then (w.finishTurn turn status durableAt).1.processedSequence
        else w.completedBarrier) ∧
    ((w.finishTurn turn status durableAt).1.metrics.durableSequence =
        if turn.doCheckpoint then (w.finishTurn turn status durableAt).1.processedSequence
        else w.metrics.durableSequence) ∧
    (w.finishTurn turn status durableAt).1.running =
        (w.running && ! turn.exitAfterCheckpoint) ∧
    (w.finishTurn turn status durableAt).2 = ! turn.exitAfterCheckpoint := by
  unfold AsyncWriter.finishTurn AsyncWriter.finishItem AsyncWriter.finishCheckpoint
  rw [if_neg (by simp [h])]
  cases turn.item <;> cases turn.doCheckpoint <;> cases turn.exitAfterCheckpoint <;> simp

/-! ## The invariant -/

/-- A session whose worker has not reported a failure, with `n` items processed. -/
structure Going (n : Nat) (z : AsyncSession) : Prop where
  submitted : submissions z.log =
    appends z.log ++ (z.worker.uncalled ++ z.writer.queue).map AsyncItem.accepted
  called : appends z.log = appendeds z.log ++ z.worker.unanswered.map AsyncItem.accepted
  count : (appendeds z.log).length = n + z.worker.unreported.length
  sequenced : Sequenced n (z.worker.taken ++ z.writer.queue)
  sequence : z.writer.submittedSequence =
    .ofNat (n + z.worker.taken.length + z.writer.queue.length)
  running : z.writer.running = true ↔ z.worker ≠ .ended
  /-- A turn makes one call. -/
  single : ∀ turn, z.worker.turn = some turn → turn.doCheckpoint = true → turn.item = none
  /-- The last turn of a session finds the queue empty, and nothing is accepted behind it. -/
  leaving : ∀ turn, z.worker.turn = some turn → turn.exitAfterCheckpoint = true →
    turn.doCheckpoint = true ∧ z.writer.stopping = true ∧ z.writer.queue = []
  covering : ∀ turn started, z.worker = .inCall turn started → turn.doCheckpoint = true →
    Covering z.log n
  returned : ∀ turn status started, z.worker = .returned turn status started →
    turn.doCheckpoint = true → status.isOk = true → Covered z.log n
  ended : z.worker = .ended → z.writer.queue = [] ∧ Covered z.log n

/-- The invariant of a session with `n` items processed and `k` durable. -/
structure Fifo (n k : Nat) (z : AsyncSession) : Prop where
  records : z.writer.queue.length ≤ z.writer.options.queueCapacityRecords
  bytes : z.writer.queuedBytes = (z.writer.queue.map fun item => item.bytes.length).sum
  room : z.writer.queuedBytes ≤ z.writer.options.queueCapacityBytes
  appends : appends z.log <+: submissions z.log
  appendeds : appendeds z.log <+: TFDB.appends z.log
  processed : z.writer.processedSequence = .ofNat n
  processed_le : n ≤ (TFDB.appendeds z.log).length
  completed : z.writer.completedBarrier = .ofNat k
  durable : z.writer.metrics.durableSequence = .ofNat k
  durable_le : k ≤ n
  covered : Covered z.log k
  stopped : ∀ status, .stopped status ∈ z.log →
    z.worker = .ended ∧ status = z.writer.backgroundStatus
  failed : z.writer.backgroundStatus.isOk = false → z.worker = .ended ∧ z.writer.running = false
  going : z.writer.backgroundStatus.isOk = true → Going n z

theorem Fifo.start {w₀ w : AsyncWriter} {storeStatus : Status} (now : UInt64)
    (h : w₀.start storeStatus = .ok w) : Fifo 0 0 { writer := w, worker := .waiting now } := by
  unfold AsyncWriter.start at h
  split at h
  · cases h
  split at h
  · cases h
  split at h
  · cases h
  split at h
  · cases h
  cases h
  refine ⟨Nat.zero_le _, rfl, Nat.zero_le _, List.prefix_rfl, List.prefix_rfl, rfl, Nat.zero_le _,
    rfl, rfl, Nat.le_refl _, .inl rfl, ?_, ?_, fun _ => ?_⟩
  · intro status hst
    cases hst
  · intro hbg
    cases hbg
  · constructor <;> simp [submissions, TFDB.appends, TFDB.appendeds, Worker.uncalled,
      Worker.unanswered, Worker.unreported, Worker.taken, Worker.turn, Sequenced]

/-- An event that is neither an acceptance nor a call or its return. -/
def AsyncEvent.Quiet (e : AsyncEvent) : Prop :=
  e.submission = none ∧ e.append = none ∧ e.appended = none ∧ ∀ op, e ≠ .called op

section
variable {n k : Nat} {z : AsyncSession}

/-- A step of a client that touches neither the queue nor what the log says of records. -/
theorem Fifo.quiet (h : Fifo n k z) {w : AsyncWriter} (hw : SameProgress z.writer w)
    (hq : w.queue = z.writer.queue) (hb : w.queuedBytes = z.writer.queuedBytes)
    (hs : w.submittedSequence = z.writer.submittedSequence) (bs : List WaitingBarrier)
    {l : List AsyncEvent} (hl : ∀ e ∈ l, e.Quiet)
    (hstop : ∀ status, .stopped status ∈ l → z.worker = .ended ∧ status = w.backgroundStatus) :
    Fifo n k { z with writer := w, barriers := bs, log := z.log ++ l } := by
  have hsub : submissions l = [] := List.filterMap_eq_nil_iff.mpr fun e he => (hl e he).1
  have happ : TFDB.appends l = [] := List.filterMap_eq_nil_iff.mpr fun e he => (hl e he).2.1
  have hend : TFDB.appendeds l = [] := List.filterMap_eq_nil_iff.mpr fun e he => (hl e he).2.2.1
  have hcall : ∀ op, AsyncEvent.called op ∉ l := fun op hop => (hl _ hop).2.2.2 op rfl
  refine ⟨?_, ?_, ?_, ?_, ?_, ?_, ?_, ?_, ?_, h.durable_le, h.covered.append l, ?_, ?_, ?_⟩
  · rw [hq, hw.options]; exact h.records
  · rw [hb, hq]; exact h.bytes
  · rw [hb, hw.options]; exact h.room
  · simpa [hsub, happ] using h.appends
  · simpa [hend, happ] using h.appendeds
  · rw [hw.processed]; exact h.processed
  · simpa [hend] using h.processed_le
  · rw [hw.completed]; exact h.completed
  · rw [hw.durable]; exact h.durable
  · intro status hst
    rcases List.mem_append.mp hst with hst | hst
    · rw [hw.status]; exact h.stopped status hst
    · exact hstop status hst
  · rw [hw.status, hw.running]; exact h.failed
  · intro hok
    rw [hw.status] at hok
    have g := h.going hok
    refine ⟨?_, ?_, ?_, ?_, ?_, ?_, g.single, ?_, ?_, ?_, ?_⟩
    · simpa [hsub, happ, hq] using g.submitted
    · simpa [hend, happ] using g.called
    · simpa [hend] using g.count
    · rw [hq]; exact g.sequenced
    · rw [hs, hq]; exact g.sequence
    · rw [hw.running]; exact g.running
    · intro turn ht hx
      obtain ⟨h1, h2, h3⟩ := g.leaving turn ht hx
      exact ⟨h1, hw.stopping h2, hq.trans h3⟩
    · intro turn started ht hd
      exact (g.covering turn started ht hd).append hcall
    · intro turn status started ht hd hst
      exact (g.returned turn status started ht hd hst).append l
    · intro hended
      obtain ⟨h1, h2⟩ := g.ended hended
      exact ⟨hq.trans h1, h2.append l⟩

/-- A submission is numbered and queued last. -/
theorem Fifo.submit (h : Fifo n k z) (record : Bytes) (time : Int64) (flags : UInt32)
    (expected : Option AppendContract) (now : UInt64) :
    Fifo n k { z with
      writer := (z.writer.submitImpl record time flags expected now).2
      log := z.log ++ if (z.writer.submitImpl record time flags expected now).1.isOk then
        [.accepted ⟨record, time, flags, expected⟩] else [] } := by
  obtain ⟨hsame, ⟨href, hq, hb, hs⟩ | ⟨hacc, hok, hrun, hstop, hrec, hbytes, hq, hb, hs⟩⟩ :=
    submitImpl_cases z.writer record time flags expected now
  · rw [if_neg (by simp [href])]
    exact h.quiet hsame hq hb hs z.barriers (by simp) (by simp)
  rw [if_pos hacc]
  generalize (z.writer.submitImpl record time flags expected now).2 = w at hsame hq hb hs
  have g := h.going hok
  have hcall : ∀ op, AsyncEvent.called op ∉ [.accepted ⟨record, time, flags, expected⟩] := by simp
  have hroom := h.room
  refine ⟨?_, ?_, ?_, ?_, ?_, hsame.processed.trans h.processed, ?_,
    hsame.completed.trans h.completed, hsame.durable.trans h.durable, h.durable_le,
    h.covered.append _, ?_, ?_, ?_⟩
  · rw [hq, hsame.options]; simpa using hrec
  · rw [hb, hq, h.bytes]; simp
  · rw [hb, hsame.options]; omega
  · simpa using h.appends.trans (List.prefix_append _ _)
  · simpa using h.appendeds
  · simpa using h.processed_le
  · intro status hst
    rw [hsame.status]
    exact h.stopped status (by simpa using hst)
  · rw [hsame.status, hsame.running]; exact h.failed
  · intro _
    refine ⟨?_, ?_, ?_, ?_, ?_, ?_, g.single, ?_, ?_, ?_, ?_⟩
    · simp [hq, g.submitted, AsyncItem.accepted]
    · simpa using g.called
    · simpa using g.count
    · rw [hq, ← List.append_assoc]
      refine g.sequenced.concat ?_
      rw [g.sequence, List.length_append, ← Nat.add_assoc, UInt64.ofNat_add _ 1]
      rfl
    · rw [hs, hq, g.sequence, List.length_append, List.length_singleton, ← Nat.add_assoc,
        UInt64.ofNat_add _ 1]
      rfl
    · rw [hsame.running]; exact g.running
    · intro turn ht hx
      obtain ⟨-, hst, -⟩ := g.leaving turn ht hx
      rw [hstop] at hst
      cases hst
    · intro turn started ht hd
      exact (g.covering turn started ht hd).append hcall
    · intro turn status started ht hd hst
      exact (g.returned turn status started ht hd hst).append _
    · intro hended
      exact absurd hended (g.running.mp hrun)

/-- The worker of a failed session has ended. -/
theorem Fifo.at_work (h : Fifo n k z) (hw : z.worker ≠ .ended) :
    z.writer.backgroundStatus.isOk = true ∧ Going n z := by
  cases hbg : z.writer.backgroundStatus.isOk with
  | true => exact ⟨rfl, h.going hbg⟩
  | false => exact absurd (h.failed hbg).1 hw

theorem Fifo.wake (h : Fifo n k z) {started : UInt64} (now dequeuedAt : UInt64)
    (hw : z.worker = .waiting started) :
    Fifo n k { z with
      writer := (z.writer.takeTurn started now dequeuedAt).2
      worker := .calling (z.writer.takeTurn started now dequeuedAt).1 started } := by
  have hne : z.worker ≠ .ended := by rw [hw]; exact Worker.noConfusion
  obtain ⟨hok, g⟩ := h.at_work hne
  have hstop (status : Status) : AsyncEvent.stopped status ∉ z.log :=
    fun hst => hne (h.stopped status hst).1
  have hrun := g.running.mpr hne
  obtain ⟨hsub, hcalled, hcount, hseq, hnum, -, -, -, -, -, -⟩ := g
  simp only [hw, Worker.uncalled, Worker.unanswered, Worker.unreported, Worker.taken, Worker.turn,
    Option.bind_none, Option.toList_none, List.nil_append, List.length_nil, Nat.add_zero]
    at hsub hcalled hcount hseq hnum
  obtain ⟨item, queue, hq, heq⟩ | ⟨turn, heq, hitem, hexit⟩ :=
    takeTurn_cases z.writer started now dequeuedAt
  · rw [heq]
    have hrec := h.records
    have hbytes := h.bytes
    have hroom := h.room
    rw [hq] at hrec hbytes
    simp only [List.length_cons, List.map_cons, List.sum_cons] at hrec hbytes
    refine ⟨?_, ?_, ?_, h.appends, h.appendeds, h.processed, h.processed_le, h.completed,
      h.durable, h.durable_le, h.covered, ?_, ?_, fun _ => ?_⟩
    · dsimp only; omega
    · dsimp only; omega
    · dsimp only; omega
    · exact fun status hst => absurd hst (hstop status)
    · exact fun hbg => by rw [hok] at hbg; cases hbg
    · -- The first item of the queue is the one the worker holds.
      refine ⟨?_, ?_, hcount, ?_, ?_, ?_, ?_, ?_, ?_, ?_, ?_⟩
      · rw [hsub, hq]
        rfl
      · simpa [Worker.unanswered] using hcalled
      · rw [hq] at hseq
        exact hseq
      · rw [hnum, hq]
        simp [Worker.taken, Worker.turn, Nat.add_assoc, Nat.add_comm 1]
      · simp [hrun]
      · simp [Worker.turn]
      · simp [Worker.turn]
      · exact fun _ _ ht => by cases ht
      · exact fun _ _ _ ht => by cases ht
      · exact fun ht => by cases ht
  · rw [heq]
    refine ⟨h.records, h.bytes, h.room, h.appends, h.appendeds, h.processed, h.processed_le,
      h.completed, h.durable, h.durable_le, h.covered, ?_, ?_, fun _ => ?_⟩
    · exact fun status hst => absurd hst (hstop status)
    · exact fun hbg => by rw [hok] at hbg; cases hbg
    · refine ⟨?_, ?_, hcount, ?_, ?_, ?_, ?_, ?_, ?_, ?_, ?_⟩
      · simpa [Worker.uncalled, hitem] using hsub
      · simpa [Worker.unanswered] using hcalled
      · simpa [Worker.taken, Worker.turn, hitem] using hseq
      · simpa [Worker.taken, Worker.turn, hitem] using hnum
      · simp [hrun]
      · intro t ht _
        cases ht
        exact hitem
      · intro t ht hx
        cases ht
        exact hexit hx
      · exact fun _ _ ht => by cases ht
      · exact fun _ _ _ ht => by cases ht
      · exact fun ht => by cases ht

/-- The call of a turn is its checkpoint, or the append of its item. -/
theorem Turn.op_cases {turn : Turn} {op : Op} (h : turn.op = some op) :
    (turn.doCheckpoint = true ∧ op = .checkpoint) ∨
    (turn.doCheckpoint = false ∧ ∃ item, turn.item = some item ∧ op = item.op) := by
  unfold Turn.op at h
  split at h
  · rename_i hd
    exact .inl ⟨hd, (Option.some.inj h).symm⟩
  · rename_i hd
    obtain ⟨item, hitem, hop⟩ := Option.map_eq_some_iff.mp h
    exact .inr ⟨Bool.eq_false_iff.mpr hd, item, hitem, hop.symm⟩

/-- A turn without a call has nothing to do. -/
theorem Turn.op_none {turn : Turn} (h : turn.op = none) :
    turn.doCheckpoint = false ∧ turn.item = none := by
  unfold Turn.op at h
  split at h
  · cases h
  · rename_i hd
    exact ⟨Bool.eq_false_iff.mpr hd, Option.map_eq_none_iff.mp h⟩

/-- A step of the worker between its sections: the writer is as it was, and the log grows by the
worker's event. -/
theorem Fifo.worker (h : Fifo n k z) (hne : z.worker ≠ .ended) {worker : Worker}
    (hne' : worker ≠ .ended) (hturn : worker.turn = z.worker.turn) {l : List AsyncEvent}
    (hstop : ∀ status, .stopped status ∉ l) (hl : submissions l = [])
    (happ : TFDB.appends l ++ worker.uncalled.map AsyncItem.accepted =
      z.worker.uncalled.map AsyncItem.accepted)
    (hend : z.worker.unanswered.map AsyncItem.accepted ++ TFDB.appends l =
      TFDB.appendeds l ++ worker.unanswered.map AsyncItem.accepted)
    (hcount : z.worker.unreported.length + (TFDB.appendeds l).length = worker.unreported.length)
    (hcovering : ∀ turn started, worker = .inCall turn started → turn.doCheckpoint = true →
      Going n z → Covering (z.log ++ l) n)
    (hcovered : ∀ turn status started, worker = .returned turn status started →
      turn.doCheckpoint = true → status.isOk = true → Going n z → Covered (z.log ++ l) n) :
    Fifo n k { z with worker := worker, log := z.log ++ l } := by
  obtain ⟨hok, g⟩ := h.at_work hne
  have htaken : worker.taken = z.worker.taken := by
    unfold Worker.taken
    rw [hturn]
  have hsub : submissions (z.log ++ l) = TFDB.appends (z.log ++ l) ++
      (worker.uncalled ++ z.writer.queue).map AsyncItem.accepted := by
    rw [submissions_append, hl, List.append_nil, g.submitted, appends_append, List.map_append,
      List.map_append, ← happ]
    simp only [List.append_assoc]
  have hcalled : TFDB.appends (z.log ++ l) =
      TFDB.appendeds (z.log ++ l) ++ worker.unanswered.map AsyncItem.accepted := by
    rw [appends_append, appendeds_append, g.called, List.append_assoc, List.append_assoc, hend]
  refine ⟨h.records, h.bytes, h.room, ?_, ?_, h.processed, ?_, h.completed, h.durable,
    h.durable_le, h.covered.append l, ?_, ?_, fun _ => ?_⟩
  · exact ⟨_, hsub.symm⟩
  · exact ⟨_, hcalled.symm⟩
  · rw [appendeds_append, List.length_append]
    exact Nat.le_add_right_of_le h.processed_le
  · intro status hst
    rcases List.mem_append.mp hst with hst | hst
    · exact absurd (h.stopped status hst).1 hne
    · exact absurd hst (hstop status)
  · exact fun hbg => by rw [hok] at hbg; cases hbg
  · refine ⟨hsub, hcalled, ?_, ?_, ?_, ?_, ?_, ?_, ?_, ?_, fun ht => absurd ht hne'⟩
    · rw [appendeds_append, List.length_append, g.count]
      dsimp only
      omega
    · rw [htaken]; exact g.sequenced
    · rw [htaken]; exact g.sequence
    · exact ⟨fun _ => hne', fun _ => g.running.mpr hne⟩
    · rw [hturn]; exact g.single
    · rw [hturn]; exact g.leaving
    · exact fun turn started ht hd => hcovering turn started ht hd g
    · exact fun turn status started ht hd hst => hcovered turn status started ht hd hst g

theorem Fifo.skip (h : Fifo n k z) {turn : Turn} {started : UInt64}
    (hw : z.worker = .calling turn started) (hop : turn.op = none) :
    Fifo n k { z with worker := .returned turn {} started } := by
  obtain ⟨hd, hitem⟩ := Turn.op_none hop
  have hne : z.worker ≠ .ended := by rw [hw]; exact Worker.noConfusion
  rw [← List.append_nil z.log]
  refine h.worker hne Worker.noConfusion (by rw [hw]; rfl) (by simp) rfl ?_ ?_ ?_ ?_ ?_
  · simp [hw, Worker.uncalled, hitem, TFDB.appends]
  · simp [hw, Worker.unanswered, hitem, TFDB.appends, TFDB.appendeds]
  · simp [hw, Worker.unreported, hitem, TFDB.appendeds]
  · exact fun _ _ ht => by cases ht
  · intro t st started' ht hd'
    cases ht
    rw [hd] at hd'
    cases hd'

theorem Fifo.workerCall (h : Fifo n k z) {turn : Turn} {started : UInt64} {op : Op}
    (hw : z.worker = .calling turn started) (hop : turn.op = some op) :
    Fifo n k { z with worker := .inCall turn started, log := z.log ++ [.called op] } := by
  have hne : z.worker ≠ .ended := by rw [hw]; exact Worker.noConfusion
  obtain ⟨-, g⟩ := h.at_work hne
  have hitems : op.submits.toList = turn.item.toList.map AsyncItem.accepted := by
    obtain ⟨hd, rfl⟩ | ⟨-, item, hitem, rfl⟩ := Turn.op_cases hop
    · rw [g.single turn (by rw [hw]; rfl) hd]
      rfl
    · rw [hitem, item.op_submits]
      rfl
  refine h.worker hne Worker.noConfusion (by rw [hw]; rfl) (by simp) (by simp) ?_ ?_ ?_ ?_ ?_
  · simpa [hw, Worker.uncalled] using hitems
  · simpa [hw, Worker.unanswered] using hitems
  · simp [hw, Worker.unreported]
  · intro t started' ht hd g
    cases ht
    obtain ⟨-, rfl⟩ | ⟨hd', -⟩ := Turn.op_cases hop
    · refine ⟨z.log, [], by simp, by simp, ?_, ?_⟩
      · rw [submissions_append]
        exact (h.appendeds.trans h.appends).trans (List.prefix_append _ _)
      · exact h.processed_le
    · rw [hd] at hd'
      cases hd'
  · exact fun _ _ _ ht => by cases ht

theorem Fifo.workerReturn (h : Fifo n k z) {turn : Turn} {started : UInt64} {op : Op}
    (status : Status) (hw : z.worker = .inCall turn started) (hop : turn.op = some op) :
    Fifo n k { z with
      worker := .returned turn status started, log := z.log ++ [.returned op status] } := by
  have hne : z.worker ≠ .ended := by rw [hw]; exact Worker.noConfusion
  obtain ⟨-, g⟩ := h.at_work hne
  have hitems : op.submits.toList = turn.item.toList.map AsyncItem.accepted := by
    obtain ⟨hd, rfl⟩ | ⟨-, item, hitem, rfl⟩ := Turn.op_cases hop
    · rw [g.single turn (by rw [hw]; rfl) hd]
      rfl
    · rw [hitem, item.op_submits]
      rfl
  have hlen : op.submits.toList.length = turn.item.toList.length := by rw [hitems, List.length_map]
  refine h.worker hne Worker.noConfusion (by rw [hw]; rfl) (by simp) (by simp) ?_ ?_ ?_ ?_ ?_
  · simp [hw, Worker.uncalled]
  · cases hst : status.isOk <;> simp [hw, Worker.unanswered, hst, hitems]
  · cases hst : status.isOk <;> simp [hw, Worker.unreported, hst, hlen]
  · exact fun _ _ ht => by cases ht
  · intro t st started' ht hd hst g
    cases ht
    obtain ⟨-, rfl⟩ | ⟨hd', -⟩ := Turn.op_cases hop
    · exact (g.covering turn started hw hd).returned hst
    · rw [hd] at hd'
      cases hd'

/-- The report of a failed call ends the session. -/
theorem Fifo.finish_failed (h : Fifo n k z) {turn : Turn} {status : Status} {started : UInt64}
    (hw : z.worker = .returned turn status started) (hst : status.isOk = false) :
    Fifo n k { z with writer := z.writer.failBackground status, worker := .ended } := by
  have hne : z.worker ≠ .ended := by rw [hw]; exact Worker.noConfusion
  refine ⟨Nat.zero_le _, rfl, Nat.zero_le _, h.appends, h.appendeds, h.processed, h.processed_le,
    h.completed, h.durable, h.durable_le, h.covered, ?_, fun _ => ⟨rfl, rfl⟩, ?_⟩
  · exact fun st hst => absurd (h.stopped st hst).1 hne
  · intro hok
    replace hok : status.isOk = true := hok
    rw [hst] at hok
    cases hok

/-- The report of a call that succeeded: an item is processed, or a checkpoint makes durable what
is. -/
theorem Fifo.finish_ok (h : Fifo n k z) {turn : Turn} {status : Status} {started : UInt64}
    (durableAt : UInt64) (hw : z.worker = .returned turn status started)
    (hst : status.isOk = true) :
    Fifo (n + turn.item.toList.length) (if turn.doCheckpoint then n else k) { z with
      writer := (z.writer.finishTurn turn status durableAt).1
      worker := if (z.writer.finishTurn turn status durableAt).2 then
        .waiting (if turn.doCheckpoint then durableAt else started) else .ended } := by
  have hne : z.worker ≠ .ended := by rw [hw]; exact Worker.noConfusion
  obtain ⟨hok, g⟩ := h.at_work hne
  have hturn : z.worker.turn = some turn := by rw [hw]; rfl
  obtain ⟨⟨hopt, hq, hb, hstopping, hsubm, hbg⟩, hproc, hcompl, hdur, hrun, hgo⟩ :=
    @finishTurn_ok turn status durableAt z.writer hst
  have hsingle := g.single turn hturn
  obtain ⟨hsub, hcalled, hcount, hseq, hnum, -, -, hleave, -, hret, -⟩ := g
  replace hret := hret turn status started hw
  simp only [hw, Worker.uncalled, Worker.unanswered, Worker.unreported, hst, if_true,
    List.nil_append, List.map_nil, List.append_nil] at hsub hcalled hcount
  have htaken : z.worker.taken = turn.item.toList := by rw [Worker.taken, hturn]; rfl
  rw [htaken] at hseq hnum
  -- The number of the item that was processed is the next one.
  have hnext : (turn.item.map AsyncItem.sequence).getD z.writer.processedSequence =
      .ofNat (n + turn.item.toList.length) := by
    cases hitem : turn.item with
    | none => exact h.processed
    | some item =>
      rw [hitem] at hseq
      exact hseq.1
  have hcp : turn.doCheckpoint = true → turn.item.toList.length = 0 := by
    intro hd
    rw [hsingle hd]
    rfl
  rw [hnext] at hproc
  rw [hproc] at hcompl hdur
  generalize z.writer.finishTurn turn status durableAt = p at *
  have hcovered : Covered z.log (if turn.doCheckpoint then n else k) := by
    split
    · exact hret ‹_› hst
    · exact h.covered
  refine ⟨?_, ?_, ?_, h.appends, h.appendeds, hproc, ?_, ?_, ?_, ?_, hcovered, ?_, ?_, fun _ => ?_⟩
  · rw [hq, hopt]; exact h.records
  · rw [hb, hq]; exact h.bytes
  · rw [hb, hopt]; exact h.room
  · exact hcount.ge
  · rw [hcompl]
    split
    · rw [hcp ‹_›, Nat.add_zero]
    · exact h.completed
  · rw [hdur]
    split
    · rw [hcp ‹_›, Nat.add_zero]
    · exact h.durable
  · have := h.durable_le
    split <;> omega
  · exact fun st hstop => absurd (h.stopped st hstop).1 hne
  · intro hbad
    rw [hbg, hok] at hbad
    cases hbad
  · have hrunning := (h.at_work hne).2.running.mpr hne
    rw [hgo]
    cases hexit : turn.exitAfterCheckpoint with
    | false =>
      refine ⟨?_, hcalled.trans (List.append_nil _).symm, hcount, ?_, ?_, ?_, ?_, ?_, ?_, ?_, ?_⟩
      · rw [hq]; exact hsub
      · rw [hq]
        cases hitem : turn.item with
        | none =>
          rw [hitem] at hseq
          exact hseq
        | some item =>
          rw [hitem] at hseq
          exact hseq.2
      · rw [hsubm, hnum, hq]
        rfl
      · simp [hrun, hrunning, hexit]
      · exact fun _ ht => by cases ht
      · exact fun _ ht => by cases ht
      · exact fun _ _ ht => by cases ht
      · exact fun _ _ _ ht => by cases ht
      · exact fun ht => by cases ht
    | true =>
      -- The last checkpoint of the session found the queue empty.
      obtain ⟨hd, -, hempty⟩ := hleave turn hturn hexit
      have hnone := hsingle hd
      simp only [hnone, Option.toList_none, List.length_nil, Nat.add_zero] at hnum hcount hseq ⊢
      refine ⟨?_, hcalled.trans (List.append_nil _).symm, hcount, ?_, ?_, ?_, ?_, ?_, ?_, ?_, fun _ => ⟨hq.trans hempty, ?_⟩⟩
      · rw [hq]; exact hsub
      · rw [hq]; exact hseq
      · rw [hsubm, hnum, hq]
        rfl
      · simp [hrun, hexit]
      · exact fun _ ht => by cases ht
      · exact fun _ ht => by cases ht
      · exact fun _ _ ht => by cases ht
      · exact fun _ _ _ ht => by cases ht
      · exact hret hd hst

/-- **One step of a session.** -/
theorem Fifo.step (h : Fifo n k z) {z' : AsyncSession} (hs : AsyncStep z z') :
    ∃ n' k', n ≤ n' ∧ k ≤ k' ∧ Fifo n' k' z' := by
  have hquiet {w : AsyncWriter} (hw : SameProgress z.writer w ∧ w.queue = z.writer.queue ∧
      w.queuedBytes = z.writer.queuedBytes ∧
      w.submittedSequence = z.writer.submittedSequence) (bs : List WaitingBarrier) :
      ∃ n' k', n ≤ n' ∧ k ≤ k' ∧ Fifo n' k' { z with writer := w, barriers := bs } := by
    refine ⟨n, k, Nat.le_refl n, Nat.le_refl k, ?_⟩
    have := h.quiet hw.1 hw.2.1 hw.2.2.1 hw.2.2.2 bs (l := []) (by simp) (by simp)
    rwa [List.append_nil] at this
  have hsame : SameProgress z.writer z.writer := ⟨rfl, rfl, id, rfl, rfl, rfl, rfl⟩
  cases hs with
  | submit record time flags expected now =>
    exact ⟨n, k, Nat.le_refl n, Nat.le_refl k, h.submit record time flags expected now⟩
  | checkpoint hreq => exact hquiet (requestCheckpoint_same hreq) _
  | checkpointReturn hb hret =>
    refine ⟨n, k, Nat.le_refl n, Nat.le_refl k, h.quiet hsame rfl rfl rfl _ ?_ (by simp)⟩
    intro e he
    rw [List.mem_singleton.mp he]
    exact ⟨rfl, rfl, rfl, fun op => AsyncEvent.noConfusion⟩
  | stop => exact hquiet (requestStop_same z.writer) _
  | stopReturn hw =>
    refine ⟨n, k, Nat.le_refl n, Nat.le_refl k, h.quiet hsame rfl rfl rfl _ ?_ ?_⟩
    · intro e he
      rw [List.mem_singleton.mp he]
      exact ⟨rfl, rfl, rfl, fun op => AsyncEvent.noConfusion⟩
    · intro status hst
      cases List.mem_singleton.mp hst
      exact ⟨hw, rfl⟩
  | wake now dequeuedAt hw => exact ⟨n, k, Nat.le_refl n, Nat.le_refl k, h.wake now dequeuedAt hw⟩
  | skip hw hop => exact ⟨n, k, Nat.le_refl n, Nat.le_refl k, h.skip hw hop⟩
  | workerCall hw hop => exact ⟨n, k, Nat.le_refl n, Nat.le_refl k, h.workerCall hw hop⟩
  | workerReturn status hw hop =>
    exact ⟨n, k, Nat.le_refl n, Nat.le_refl k, h.workerReturn status hw hop⟩
  | @finish turn status started durableAt hw =>
    cases hst : status.isOk with
    | false =>
      rw [finishTurn_failed durableAt z.writer hst]
      exact ⟨n, k, Nat.le_refl n, Nat.le_refl k, h.finish_failed hw hst⟩
    | true =>
      refine ⟨_, _, Nat.le_add_right _ _, ?_, h.finish_ok durableAt hw hst⟩
      have := h.durable_le
      split <;> omega

/-- Every state of a session satisfies the invariant. -/
theorem AsyncReach.fifo (hz : AsyncReach z) : ∃ n k, Fifo n k z := by
  induction hz with
  | start now h => exact ⟨0, 0, Fifo.start now h⟩
  | step hz hs ih =>
    obtain ⟨n, k, h⟩ := ih
    obtain ⟨n', k', -, -, h'⟩ := h.step hs
    exact ⟨n', k', h'⟩

/-- Every accepted submission is processed, with the worker, or queued. -/
theorem Going.counted (g : Going n z) :
    (submissions z.log).length = n + z.worker.taken.length + z.writer.queue.length := by
  have hsplit : z.worker.taken.length = z.worker.uncalled.length +
      z.worker.unanswered.length + z.worker.unreported.length := by
    cases hw : z.worker with
    | ended => rfl
    | waiting started => rfl
    | calling turn started => rfl
    | inCall turn started => exact (Nat.zero_add _).symm
    | returned turn status started =>
      cases hst : status.isOk <;> simp [Worker.taken, Worker.turn, Worker.uncalled,
        Worker.unanswered, Worker.unreported, hst]
  rw [g.submitted, List.length_append, List.length_map, List.length_append, g.called,
    List.length_append, List.length_map, g.count, hsplit]
  omega

/-- What is appended in a session whose worker ended without a failure. -/
theorem Fifo.drained (h : Fifo n k z) (hw : z.worker = .ended)
    (hok : z.writer.backgroundStatus.isOk = true) :
    TFDB.appends z.log = submissions z.log ∧ TFDB.appendeds z.log = submissions z.log ∧
      Covered z.log (submissions z.log).length := by
  have g := h.going hok
  obtain ⟨hq, hcov⟩ := g.ended hw
  have hsub := g.submitted
  have hcalled := g.called
  have hcount := g.count
  simp only [hw, hq, Worker.uncalled, Worker.unanswered, Worker.unreported, List.map_nil,
    List.append_nil, List.length_nil, Nat.add_zero] at hsub hcalled hcount
  refine ⟨hsub.symm, by rw [hsub, hcalled], ?_⟩
  rw [hsub, hcalled, hcount]
  exact hcov

end

/-! ## Exactly once, in order -/

/-- **The asynchronous writer is an exactly-once queue.**  In every state of a session the appends
the worker called are the oldest accepted submissions, in order and with their bytes, time, flags
and contract; the numbers of the writer count them while no failure is reported; the queue is
within its capacities; and behind a `stop` that returned `Ok` every accepted submission is appended
once and covered by a checkpoint. -/
theorem async_fifo {z : AsyncSession} (hz : AsyncReach z) :
    appends z.log <+: submissions z.log ∧
    (z.writer.backgroundStatus.isOk = true → ∃ n,
      z.writer.submittedSequence = .ofNat (submissions z.log).length ∧
      z.writer.processedSequence = .ofNat n ∧
      (submissions z.log).length = n + z.worker.taken.length + z.writer.queue.length ∧
      z.worker.taken.length ≤ 1) ∧
    z.writer.queue.length ≤ z.writer.options.queueCapacityRecords ∧
    z.writer.queuedBytes ≤ z.writer.options.queueCapacityBytes ∧
    z.writer.queuedBytes = (z.writer.queue.map fun item => item.bytes.length).sum ∧
    ∀ status, .stopped status ∈ z.log → status.isOk = true →
      appends z.log = submissions z.log ∧ appendeds z.log = submissions z.log ∧
        Covered z.log (submissions z.log).length := by
  obtain ⟨n, k, h⟩ := hz.fifo
  refine ⟨h.appends, fun hok => ⟨n, ?_⟩, h.records, h.room, h.bytes, fun status hst hok => ?_⟩
  · have g := h.going hok
    exact ⟨by rw [g.counted]; exact g.sequence, h.processed, g.counted, z.worker.taken_length⟩
  · obtain ⟨hw, rfl⟩ := h.stopped status hst
    exact h.drained hw hok

/-! ### A session between two records -/

/-- The worker waits, and every accepted record is processed. -/
structure Resting (s now : UInt64) (z : AsyncSession) : Prop where
  worker : z.worker = .waiting now
  options : z.writer.options = {}
  queue : z.writer.queue = []
  bytes : z.writer.queuedBytes = 0
  running : z.writer.running = true
  stopping : z.writer.stopping = false
  requested : z.writer.checkpointRequested = false
  submitted : z.writer.submittedSequence = s
  processed : z.writer.processedSequence = s
  status : z.writer.backgroundStatus = {}

theorem AsyncSteps.trans {x y z : AsyncSession} (h : AsyncSteps x y) (h' : AsyncSteps y z) :
    AsyncSteps x z := by
  induction h' with
  | refl => exact h
  | step _ hs ih => exact ih.step hs

/-- A turn whose call succeeds. -/
theorem AsyncSteps.turn {z : AsyncSession} {turn : Turn} {started : UInt64} {op : Op}
    (durableAt : UInt64) (hw : z.worker = .calling turn started) (hop : turn.op = some op) :
    AsyncSteps z { z with
      writer := (z.writer.finishTurn turn {} durableAt).1
      worker := if (z.writer.finishTurn turn {} durableAt).2 then
        .waiting (if turn.doCheckpoint then durableAt else started) else .ended
      log := z.log ++ [.called op, .returned op {}] } := by
  have h1 := (AsyncSteps.refl z).step (.workerCall z hw hop)
  have h2 := h1.step (.workerReturn _ {} rfl hop)
  rw [List.append_assoc] at h2
  exact h2.step (.finish _ durableAt rfl)

theorem Resting.start {w : AsyncWriter} {storeStatus : Status} (now : UInt64)
    (h : AsyncWriter.start storeStatus {} = .ok w) :
    Resting 0 now { writer := w, worker := .waiting now } := by
  unfold AsyncWriter.start at h
  split at h
  · cases h
  split at h
  · cases h
  split at h
  · cases h
  split at h
  · cases h
  cases h
  constructor <;> rfl

theorem submitImpl_requested (w : AsyncWriter) (record : Bytes) (time : Int64) (flags : UInt32)
    (expected : Option AppendContract) (now : UInt64) :
    (w.submitImpl record time flags expected now).2.checkpointRequested =
      w.checkpointRequested := by
  unfold AsyncWriter.submitImpl
  split
  · rfl
  split
  · rfl
  split
  · rfl
  split <;> rfl

theorem finishTurn_requested {turn : Turn} (durableAt : UInt64) {w : AsyncWriter}
    (h : w.checkpointRequested = false) :
    (w.finishTurn turn {} durableAt).1.checkpointRequested = false := by
  unfold AsyncWriter.finishTurn AsyncWriter.finishItem AsyncWriter.finishCheckpoint
  rw [if_neg (by decide)]
  cases turn.item <;> cases turn.doCheckpoint <;> cases turn.exitAfterCheckpoint <;> simp [h]

section
variable {s now : UInt64} {z : AsyncSession} (b : UInt8)

/-- A writer that runs with an empty queue accepts a short record. -/
theorem submitImpl_accepts {w : AsyncWriter} (hbg : w.backgroundStatus = {})
    (hrun : w.running = true) (hstop : w.stopping = false) (hopt : w.options = {})
    (hq : w.queue = []) (hb : w.queuedBytes = 0) (now : UInt64) :
    (w.submitImpl [b] 1 0 none now).1.isOk = true ∧
      (w.submitImpl [b] 1 0 none now).2.stopping = false := by
  unfold AsyncWriter.submitImpl
  rw [if_neg (by rw [hbg]; decide), if_neg (by simp [hrun, hstop]), if_neg (by simp),
    if_neg (by simp [hq, hb, hopt])]
  exact ⟨rfl, hstop⟩

/-- A record is accepted, and the worker takes it. -/
theorem Resting.taken (h : Resting s now z) :
    (z.writer.submitImpl [b] 1 0 none now).1.isOk = true ∧ ∃ w : AsyncWriter,
      (z.writer.submitImpl [b] 1 0 none now).2.takeTurn now now now =
        ({ item := some ⟨[b], 1, 0, s + 1, none, now⟩, dequeuedAtNs := now }, w) ∧
      SameProgress z.writer w ∧ w.queue = [] ∧ w.queuedBytes = 0 ∧ w.stopping = false ∧
      w.checkpointRequested = false ∧ w.submittedSequence = s + 1 := by
  have hreq := submitImpl_requested z.writer [b] 1 0 none now
  rw [h.requested] at hreq
  obtain ⟨hok, hstop⟩ := submitImpl_accepts b h.status h.running h.stopping h.options h.queue h.bytes
    now
  obtain ⟨hsame, ⟨href, -⟩ | ⟨-, -, -, -, -, -, hq, hb, hs⟩⟩ :=
    submitImpl_cases z.writer [b] 1 0 none now
  · rw [hok] at href
    cases href
  refine ⟨hok, ?_⟩
  generalize (z.writer.submitImpl [b] 1 0 none now).2 = w at hsame hq hb hs hreq hstop
  rw [h.queue, h.submitted, List.nil_append] at hq
  rw [h.bytes] at hb
  rw [h.submitted] at hs
  have htake : w.takeTurn now now now =
      ({ item := some ⟨[b], 1, 0, s + 1, none, now⟩, dequeuedAtNs := now },
        { w with queue := [], queuedBytes := 0 }) := by
    unfold AsyncWriter.takeTurn AsyncWriter.intervalNs intervalElapsed
    rw [hq, hsame.options, h.options, hstop, hreq, hb]
    simp
    decide
  exact ⟨_, htake, ⟨hsame.options, hsame.running, hsame.stopping, hsame.processed, hsame.completed,
    hsame.durable, hsame.status⟩, rfl, rfl, hstop, hreq, hs⟩

theorem Resting.take (h : Resting s now z) : ∃ w : AsyncWriter,
    AsyncSteps z { z with
      writer := w
      worker := .calling { item := some ⟨[b], 1, 0, s + 1, none, now⟩, dequeuedAtNs := now } now
      log := z.log ++ [.accepted ⟨[b], 1, 0, none⟩] } ∧
    SameProgress z.writer w ∧ w.queue = [] ∧ w.queuedBytes = 0 ∧ w.stopping = false ∧
    w.checkpointRequested = false ∧ w.submittedSequence = s + 1 := by
  have h1 := (AsyncSteps.refl z).step (.submit z [b] 1 0 none now)
  obtain ⟨hok, w, htake, hw⟩ := h.taken b
  rw [if_pos hok] at h1
  have h2 := h1.step (.wake _ now now h.worker)
  rw [htake] at h2
  exact ⟨w, h2, hw⟩

/-- The report of the append of the record. -/
theorem Resting.report (h : Resting s now z) {w : AsyncWriter} (hsame : SameProgress z.writer w)
    (hq : w.queue = []) (hb : w.queuedBytes = 0) (hstop : w.stopping = false)
    (hreq : w.checkpointRequested = false) (hs : w.submittedSequence = s + 1) {turn : Turn}
    (hturn : turn = { item := some ⟨[b], 1, 0, s + 1, none, now⟩, dequeuedAtNs := now })
    (log : List AsyncEvent) :
    Resting (s + 1) now { z with
      writer := (w.finishTurn turn {} now).1
      worker := if (w.finishTurn turn {} now).2 then
        .waiting (if turn.doCheckpoint then now else now) else .ended
      log := log } ∧
    (w.finishTurn turn {} now).1.metrics.durableSequence = z.writer.metrics.durableSequence := by
  subst hturn
  obtain ⟨⟨hopt, hq', hb', hst', hsub', hbg'⟩, hproc, -, hdur, hrun, hgo⟩ :=
    @finishTurn_ok { item := some ⟨[b], 1, 0, s + 1, none, now⟩, dequeuedAtNs := now } {} now w rfl
  have hreq' := @finishTurn_requested
    { item := some ⟨[b], 1, 0, s + 1, none, now⟩, dequeuedAtNs := now } now w hreq
  generalize AsyncWriter.finishTurn _ _ _ _ = p at *
  rw [hgo]
  refine ⟨⟨rfl, ?_, hq'.trans hq, hb'.trans hb, ?_, hst'.trans hstop, hreq', hsub'.trans hs, hproc,
    ?_⟩, hdur.trans hsame.durable⟩
  · exact hopt.trans (hsame.options.trans h.options)
  · rw [hrun, hsame.running, h.running]
    rfl
  · exact hbg'.trans (hsame.status.trans h.status)

/-- A record is accepted, taken and appended. -/
theorem Resting.append (h : Resting s now z) : ∃ z', AsyncSteps z z' ∧ Resting (s + 1) now z' ∧
    z'.log = z.log ++ [.accepted ⟨[b], 1, 0, none⟩, .called (.append [b] 1 0),
      .returned (.append [b] 1 0) {}] ∧
    z'.writer.metrics.durableSequence = z.writer.metrics.durableSequence := by
  obtain ⟨w, h1, hsame, hq, hb, hstop, hreq, hs⟩ := h.take b
  have h2 := h1.trans (AsyncSteps.turn now rfl rfl)
  obtain ⟨hrest, hdur⟩ := h.report b hsame hq hb hstop hreq hs rfl
    (z.log ++ [.accepted ⟨[b], 1, 0, none⟩] ++ [.called (.append [b] 1 0),
      .returned (.append [b] 1 0) {}])
  refine ⟨_, h2, hrest, ?_, hdur⟩
  rw [List.append_assoc]
  rfl

/-- The writer is stopped: a last checkpoint, and the end of the worker. -/
theorem Resting.stop (h : Resting s now z) : ∃ z', AsyncSteps z z' ∧
    z'.log = z.log ++ [.called .checkpoint, .returned .checkpoint {}, .stopped {}] := by
  have h1 := (AsyncSteps.refl z).step (.stop z)
  have hstop : z.writer.requestStop.stopping = true := by
    unfold AsyncWriter.requestStop
    rw [if_pos h.running]
  obtain ⟨hsame, hq, -, -⟩ := requestStop_same z.writer
  generalize z.writer.requestStop = w at *
  rw [h.queue] at hq
  have htake : w.takeTurn now now now =
      ({ doCheckpoint := true, exitAfterCheckpoint := true }, w) := by
    unfold AsyncWriter.takeTurn
    rw [hq, hstop]
    simp
  have h2 := h1.step (.wake _ now now h.worker)
  rw [htake] at h2
  have h3 := h2.trans (AsyncSteps.turn now rfl rfl)
  obtain ⟨⟨-, -, -, -, -, hbg⟩, -, -, -, -, hgo⟩ :=
    @finishTurn_ok { doCheckpoint := true, exitAfterCheckpoint := true } {} now w rfl
  dsimp only at h3
  generalize AsyncWriter.finishTurn _ _ _ _ = p at *
  rw [hgo] at h3
  refine ⟨_, h3.step (.stopReturn _ rfl), ?_⟩
  dsimp only
  rw [hbg, hsame.status, h.status, List.append_assoc]
  rfl

end

/-- A session that accepts two records, one behind the other, and is stopped. -/
theorem stopped_session_drained : ∃ z, AsyncReach z ∧ .stopped {} ∈ z.log ∧
    submissions z.log = [⟨[7], 1, 0, none⟩, ⟨[8], 1, 0, none⟩] ∧ appends z.log = submissions z.log ∧
    Covered z.log 2 := by
  have hstart : AsyncWriter.start {} {} = .ok { running := true } := rfl
  obtain ⟨z₁, h₁, hrest₁, hlog₁, -⟩ := (Resting.start 0 hstart).append 7
  obtain ⟨z₂, h₂, hrest₂, hlog₂, -⟩ := hrest₁.append 8
  obtain ⟨z₃, h₃, hlog₃⟩ := hrest₂.stop
  rw [hlog₂, hlog₁] at hlog₃
  have hz := (((AsyncReach.start 0 hstart).steps h₁).steps h₂).steps h₃
  have hmem : .stopped {} ∈ z₃.log := by rw [hlog₃]; simp
  have hsub : submissions z₃.log = [⟨[7], 1, 0, none⟩, ⟨[8], 1, 0, none⟩] := by rw [hlog₃]; rfl
  obtain ⟨-, -, -, -, -, hstop⟩ := async_fifo hz
  obtain ⟨hcalled, -, hcov⟩ := hstop {} hmem rfl
  rw [hsub] at hcov
  exact ⟨z₃, hz, hmem, hsub, hcalled, hcov⟩

/-! ## Sessions in front of a store -/

section
variable {env : Env}

/-- A step of a writer in front of a store is a start, or a step of its session, or one of the
store that the session does not see. -/
theorem SharedStep.session {z z' : Shared} (h : SharedStep env z z') {y : AsyncSession}
    (hw : y.writer = z.writer) (hk : y.worker = z.worker) :
    (∃ storeStatus w now, z.writer.start storeStatus = .ok w ∧ z'.writer = w ∧
      z'.worker = .waiting now) ∨
    ∃ y', (y' = y ∨ AsyncStep y y') ∧ y'.writer = z'.writer ∧ y'.worker = z'.worker := by
  obtain ⟨writer, worker, barriers, log⟩ := y
  dsimp only at hw hk
  subst hw hk
  cases h with
  | start now hw h => exact .inl ⟨_, _, now, h, rfl, rfl⟩
  | submit record time flags expected now =>
    exact .inr ⟨_, .inr (.submit _ record time flags expected now), rfl, rfl⟩
  | checkpoint h => exact .inr ⟨_, .inr (.checkpoint _ h), rfl, rfl⟩
  | stop => exact .inr ⟨_, .inr (.stop _), rfl, rfl⟩
  | wake now dequeuedAt hw => exact .inr ⟨_, .inr (.wake _ now dequeuedAt hw), rfl, rfl⟩
  | skip hw hop => exact .inr ⟨_, .inr (.skip _ hw hop), rfl, rfl⟩
  | workerCall hw hop hp => exact .inr ⟨_, .inr (.workerCall _ hw hop), rfl, rfl⟩
  | @workerReturn turn started op r s hw hop hp =>
    exact .inr ⟨_, .inr (.workerReturn _ (statusOf r) hw hop), rfl, rfl⟩
  | finish durableAt hw => exact .inr ⟨_, .inr (.finish _ durableAt hw), rfl, rfl⟩
  | store h hw => exact .inr ⟨_, .inl rfl, rfl, rfl⟩

/-- A writer that was never started stays as it was constructed. -/
theorem SharedStep.constructed {z z' : Shared} (h : SharedStep env z z')
    {options : AsyncWriterOptions} (hw : z.writer = { options := options })
    (hk : z.worker = .ended) :
    (∃ storeStatus w now, z.writer.start storeStatus = .ok w ∧ z'.writer = w ∧
      z'.worker = .waiting now) ∨ (z'.writer = { options := options } ∧ z'.worker = .ended) := by
  cases h with
  | start now hw h => exact .inl ⟨_, _, now, h, rfl, rfl⟩
  | submit record time flags expected now => exact .inr ⟨by rw [hw]; rfl, hk⟩
  | checkpoint h =>
    rw [hw] at h
    cases h
  | stop => exact .inr ⟨by rw [hw]; rfl, hk⟩
  | wake now dequeuedAt hw' => rw [hk] at hw'; cases hw'
  | skip hw' hop => rw [hk] at hw'; cases hw'
  | workerCall hw' hop hp => rw [hk] at hw'; cases hw'
  | workerReturn hw' hop hp => rw [hk] at hw'; cases hw'
  | finish durableAt hw' => rw [hk] at hw'; cases hw'
  | store h hw' => exact .inr ⟨hw, hk⟩

/-- **A writer in front of a store makes sessions**: from its first start on, it and its worker are
those of a session. -/
theorem shared_session {z : Shared} (hz : SharedReach env z) :
    (∃ options, z.writer = { options := options } ∧ z.worker = .ended) ∨
    ∃ y, AsyncReach y ∧ y.writer = z.writer ∧ y.worker = z.worker := by
  induction hz with
  | construct h options => exact .inl ⟨options, rfl, rfl⟩
  | @step z z' hz h ih =>
    have hstart : (∃ storeStatus w now, z.writer.start storeStatus = .ok w ∧ z'.writer = w ∧
        z'.worker = .waiting now) →
        ∃ y, AsyncReach y ∧ y.writer = z'.writer ∧ y.worker = z'.worker := by
      rintro ⟨storeStatus, w, now, hok, hw, hk⟩
      exact ⟨_, .start now hok, hw.symm, hk.symm⟩
    rcases ih with ⟨options, hw, hk⟩ | ⟨y, hy, hw, hk⟩
    · rcases h.constructed hw hk with hs | hs
      · exact .inr (hstart hs)
      · exact .inl ⟨options, hs⟩
    · rcases h.session hw hk with hs | ⟨y', rfl | hs, hw', hk'⟩
      · exact .inr (hstart hs)
      · exact .inr ⟨y', hy, hw', hk'⟩
      · exact .inr ⟨y', hy.step hs, hw', hk'⟩

end

end TFDB
