import TFDB.Barrier

/-!
# The oldest submission that is not durable

The writer keeps one flag and one time for the oldest submission that no completed checkpoint
covers, and the greatest age at which a submission became durable.  Both are updated from two
threads.

* `TimedSession`, `TimedStep`, `TimedReach` — a session whose clock never goes back, with the times
  at which its submissions were accepted and became durable;
* `ExactAge` — the flag, the time and the maximum are exact;
* `Aged` — the invariant, kept by every step (`Aged.step`);
* `oldest_undurable_exact` — they are exact in every session with fewer than `2 ^ 64` submissions;
* `oldest_undurable_wraps` — with more they are not.
-/

set_option autoImplicit false

namespace TFDB

open ByteLib Writer

/-! ## Sessions with a clock -/

structure TimedSession where
  session : AsyncSession
  /-- What the clock was read last. -/
  clock : UInt64
  /-- When the submissions were accepted, oldest first. -/
  submittedAt : List UInt64 := []
  /-- How many appends had returned `Ok` when the last checkpoint of the store was called. -/
  before : Nat := 0
  /-- When the checkpoint completed that covered a submission first, oldest submission first. -/
  durableAt : List UInt64 := []

/-- The steps of a session.  Each reading of the clock is at least the one before it; a step that
does not read the clock may take the last reading for its argument. -/
inductive TimedStep : TimedSession → TimedSession → Prop
  | submit (T : TimedSession) (record : Bytes) (time : Int64) (flags : UInt32)
      (expected : Option AppendContract) (now : UInt64) (hnow : T.clock ≤ now) :
      TimedStep T { T with
        session := { T.session with
          writer := (T.session.writer.submitImpl record time flags expected now).2
          log := T.session.log ++
            if (T.session.writer.submitImpl record time flags expected now).1.isOk then
              [.accepted ⟨record, time, flags, expected⟩] else [] }
        clock := now
        submittedAt := T.submittedAt ++
          if (T.session.writer.submitImpl record time flags expected now).1.isOk then [now] else [] }
  | checkpoint (T : TimedSession) {w : AsyncWriter}
      (h : T.session.writer.requestCheckpoint = .ok w) :
      TimedStep T { T with session := { T.session with
        writer := w
        barriers := T.session.barriers ++
          [⟨T.session.writer.submittedSequence, (submissions T.session.log).length⟩] } }
  | checkpointReturn (T : TimedSession) {bs cs : List WaitingBarrier} {b : WaitingBarrier}
      {status : Status} (hb : T.session.barriers = bs ++ b :: cs)
      (h : T.session.writer.awaitBarrier b.target = some status) :
      TimedStep T { T with session := { T.session with
        barriers := bs ++ cs, log := T.session.log ++ [.synced b.before status] } }
  | stop (T : TimedSession) :
      TimedStep T { T with session := { T.session with writer := T.session.writer.requestStop } }
  | stopReturn (T : TimedSession) (hw : T.session.worker = .ended) :
      TimedStep T { T with session := { T.session with
        log := T.session.log ++ [.stopped T.session.writer.backgroundStatus] } }
  | wake (T : TimedSession) {started : UInt64} (now dequeuedAt : UInt64) (hnow : T.clock ≤ now)
      (hdequeued : now ≤ dequeuedAt) (hw : T.session.worker = .waiting started) :
      TimedStep T { T with
        session := { T.session with
          writer := (T.session.writer.takeTurn started now dequeuedAt).2
          worker := .calling (T.session.writer.takeTurn started now dequeuedAt).1 started }
        clock := dequeuedAt }
  | skip (T : TimedSession) {turn : Turn} {started : UInt64}
      (hw : T.session.worker = .calling turn started) (hop : turn.op = none) :
      TimedStep T { T with session := { T.session with worker := .returned turn {} started } }
  | workerCall (T : TimedSession) {turn : Turn} {started : UInt64} {op : Op}
      (hw : T.session.worker = .calling turn started) (hop : turn.op = some op) :
      TimedStep T { T with
        session := { T.session with
          worker := .inCall turn started, log := T.session.log ++ [.called op] }
        before := if turn.doCheckpoint then (appendeds T.session.log).length else T.before }
  | workerReturn (T : TimedSession) {turn : Turn} {started : UInt64} {op : Op} (status : Status)
      (hw : T.session.worker = .inCall turn started) (hop : turn.op = some op) :
      TimedStep T { T with session := { T.session with
        worker := .returned turn status started, log := T.session.log ++ [.returned op status] } }
  | finish (T : TimedSession) {turn : Turn} {status : Status} {started : UInt64} (now : UInt64)
      (hnow : T.clock ≤ now) (hw : T.session.worker = .returned turn status started) :
      TimedStep T { T with
        session := { T.session with
          writer := (T.session.writer.finishTurn turn status now).1
          worker := if (T.session.writer.finishTurn turn status now).2 then
            .waiting (if turn.doCheckpoint then now else started) else .ended }
        clock := now
        durableAt := T.durableAt ++ if status.isOk && turn.doCheckpoint then
          List.replicate (T.before - T.durableAt.length) now else [] }

/-- The states of a session, from a `start` of any writer on. -/
inductive TimedReach : TimedSession → Prop
  | start {w₀ w : AsyncWriter} {storeStatus : Status} (started clock : UInt64)
      (h : w₀.start storeStatus = .ok w) :
      TimedReach { session := { writer := w, worker := .waiting started }, clock := clock }
  | step {T T' : TimedSession} (hT : TimedReach T) (h : TimedStep T T') : TimedReach T'

/-! ## Ages -/

/-- The age at which a covered submission became durable. -/
def TimedSession.IsAge (T : TimedSession) (age : Int) : Prop :=
  ∃ (i : Nat) (accepted durable : UInt64), T.submittedAt[i]? = some accepted ∧
    T.durableAt[i]? = some durable ∧ age = (durable.toNat : Int) - accepted.toNat

/-- The tracker of the writer is exact.  The first `durableAt.length` submissions are covered. -/
structure ExactAge (T : TimedSession) : Prop where
  undurable : T.session.writer.haveOldestUndurable = true ↔ T.durableAt.length < T.submittedAt.length
  oldest : ∀ accepted, T.submittedAt[T.durableAt.length]? = some accepted →
    T.session.writer.oldestUndurableNs = accepted
  none : T.durableAt = [] → T.session.writer.metrics.maximumAcceptedToDurableNs = 0
  maximum : T.durableAt ≠ [] →
    IsGreatest {age | T.IsAge age} (T.session.writer.metrics.maximumAcceptedToDurableNs.toNat : Int)

/-- The fields of the tracker. -/
structure SameTracker (w w' : AsyncWriter) : Prop where
  undurable : w'.haveOldestUndurable = w.haveOldestUndurable
  oldest : w'.oldestUndurableNs = w.oldestUndurableNs
  maximum : w'.metrics.maximumAcceptedToDurableNs = w.metrics.maximumAcceptedToDurableNs

theorem ExactAge.same {T T' : TimedSession} (h : ExactAge T)
    (hw : SameTracker T.session.writer T'.session.writer) (hs : T'.submittedAt = T.submittedAt)
    (hd : T'.durableAt = T.durableAt) : ExactAge T' := by
  have hage (age : Int) : T'.IsAge age ↔ T.IsAge age := by
    unfold TimedSession.IsAge
    rw [hs, hd]
  refine ⟨?_, ?_, ?_, ?_⟩
  · rw [hw.undurable, hs, hd]
    exact h.undurable
  · rw [hw.oldest, hs, hd]
    exact h.oldest
  · rw [hw.maximum, hd]
    exact h.none
  · rw [hw.maximum, hd]
    simp only [hage]
    exact h.maximum

/-! ## The sections of the writer -/

theorem submitImpl_refused (w : AsyncWriter) (record : Bytes) (time : Int64) (flags : UInt32)
    (expected : Option AppendContract) (now : UInt64)
    (h : (w.submitImpl record time flags expected now).1.isOk = false) :
    SameTracker w (w.submitImpl record time flags expected now).2 := by
  unfold AsyncWriter.submitImpl at h ⊢
  split
  · exact ⟨rfl, rfl, rfl⟩
  split
  · exact ⟨rfl, rfl, rfl⟩
  split
  · exact ⟨rfl, rfl, rfl⟩
  split
  · exact ⟨rfl, rfl, rfl⟩
  rename_i h1 h2 h3 h4
  rw [if_neg h1, if_neg h2, if_neg h3, if_neg h4] at h
  cases h

theorem submitImpl_tracks (w : AsyncWriter) (record : Bytes) (time : Int64) (flags : UInt32)
    (expected : Option AppendContract) (now : UInt64)
    (h : (w.submitImpl record time flags expected now).1.isOk = true)
    (hbg : w.backgroundStatus.isOk = true) :
    (w.submitImpl record time flags expected now).2.haveOldestUndurable = true ∧
      (w.submitImpl record time flags expected now).2.oldestUndurableNs =
        (if w.haveOldestUndurable then w.oldestUndurableNs else now) ∧
      (w.submitImpl record time flags expected now).2.metrics.maximumAcceptedToDurableNs =
        w.metrics.maximumAcceptedToDurableNs := by
  unfold AsyncWriter.submitImpl at h ⊢
  rw [if_neg (not_not.mpr hbg)] at h ⊢
  split
  · rename_i h1
    rw [if_pos h1] at h
    cases h
  rename_i h1
  rw [if_neg h1] at h
  split
  · rename_i h2
    rw [if_pos h2] at h
    cases h
  rename_i h2
  rw [if_neg h2] at h
  split
  · rename_i h3
    rw [if_pos h3] at h
    cases h
  · exact ⟨rfl, rfl, rfl⟩

theorem requestCheckpoint_tracker {w w' : AsyncWriter} (h : w.requestCheckpoint = .ok w') :
    SameTracker w w' := by
  unfold AsyncWriter.requestCheckpoint at h
  split at h
  · cases h
  split at h
  · cases h
  · cases h
    exact ⟨rfl, rfl, rfl⟩

theorem requestStop_tracker (w : AsyncWriter) : SameTracker w w.requestStop := by
  unfold AsyncWriter.requestStop
  split
  · exact ⟨rfl, rfl, rfl⟩
  · exact ⟨rfl, rfl, rfl⟩

/-- The report of an append, or of nothing. -/
theorem finishTurn_tracker {turn : Turn} {status : Status} (now : UInt64) (w : AsyncWriter)
    (hst : status.isOk = true) (hd : turn.doCheckpoint = false) :
    SameTracker w (w.finishTurn turn status now).1 := by
  have hitem : SameTracker w (w.finishItem turn) := by
    unfold AsyncWriter.finishItem
    cases turn.item with
    | none => exact ⟨rfl, rfl, rfl⟩
    | some item => exact ⟨rfl, rfl, rfl⟩
  unfold AsyncWriter.finishTurn
  rw [if_neg (by simp [hst]), hd]
  obtain ⟨h1, h2, h3⟩ := hitem
  dsimp only
  rw [if_neg Bool.false_ne_true]
  split
  · exact ⟨h1, h2, h3⟩
  · exact ⟨h1, h2, h3⟩

/-- The report of a checkpoint. -/
theorem finishTurn_ages {turn : Turn} {status : Status} (now : UInt64) (w : AsyncWriter)
    (hst : status.isOk = true) (hd : turn.doCheckpoint = true) (hitem : turn.item = none) :
    SameTracker (w.finishCheckpoint now) (w.finishTurn turn status now).1 := by
  unfold AsyncWriter.finishTurn AsyncWriter.finishItem
  rw [if_neg (by simp [hst]), hd, hitem]
  dsimp only
  rw [if_pos rfl]
  split
  · exact ⟨rfl, rfl, rfl⟩
  · exact ⟨rfl, rfl, rfl⟩

/-- A checkpoint that covers nothing new leaves the tracker as it is. -/
theorem finishCheckpoint_idle (now : UInt64) {w : AsyncWriter}
    (h : ¬ w.processedSequence > w.metrics.durableSequence) :
    SameTracker w (w.finishCheckpoint now) := by
  have hadv : decide (w.processedSequence > w.metrics.durableSequence) = false := decide_eq_false h
  refine ⟨?_, ?_, ?_⟩
  · simp [AsyncWriter.finishCheckpoint, hadv]
  · simp [AsyncWriter.finishCheckpoint, hadv]
  · simp [AsyncWriter.finishCheckpoint, hadv]

/-- A checkpoint that covers something new ages the oldest submission and turns to the queue. -/
theorem finishCheckpoint_ages (now : UInt64) {w : AsyncWriter}
    (h : w.processedSequence > w.metrics.durableSequence) (hhave : w.haveOldestUndurable = true) :
    (w.finishCheckpoint now).haveOldestUndurable = ! w.queue.isEmpty ∧
      (∀ item queue, w.queue = item :: queue →
        (w.finishCheckpoint now).oldestUndurableNs = item.submittedAtNs) ∧
      (w.finishCheckpoint now).metrics.maximumAcceptedToDurableNs =
        max w.metrics.maximumAcceptedToDurableNs (elapsedNs w.oldestUndurableNs now) := by
  have hadv : decide (w.processedSequence > w.metrics.durableSequence) = true := decide_eq_true h
  refine ⟨?_, fun item queue hq => ?_, ?_⟩
  · simp [AsyncWriter.finishCheckpoint, hadv, hhave]
  · simp [AsyncWriter.finishCheckpoint, hadv, hhave, hq]
  · simp [AsyncWriter.finishCheckpoint, hadv, hhave]

/-! ## The invariant -/

/-- The worker is in the call of this turn or behind it. -/
def Worker.Called (turn : Turn) : Worker → Prop
  | .inCall turn' _ => turn' = turn
  | .returned turn' _ _ => turn' = turn
  | _ => False

/-- A session without a reported failure, with `n` items processed. -/
structure Aged (n : Nat) (T : TimedSession) : Prop where
  fifo : Fifo n T.durableAt.length T.session
  processed_le : n ≤ T.submittedAt.length
  items : (T.session.worker.taken ++ T.session.writer.queue).map AsyncItem.submittedAtNs =
    T.submittedAt.drop n
  sorted : T.submittedAt.Pairwise (· ≤ ·)
  past : ∀ t ∈ T.submittedAt, t ≤ T.clock
  before : ∀ turn, T.session.worker.Called turn → turn.doCheckpoint = true → T.before = n
  exact : ExactAge T

section
variable {n : Nat} {T T' : TimedSession}

/-- A step that accepts, processes and covers nothing. -/
theorem Aged.same (h : Aged n T) (hf : Fifo n T.durableAt.length T'.session)
    (hitems : T'.session.worker.taken ++ T'.session.writer.queue =
      T.session.worker.taken ++ T.session.writer.queue)
    (htracker : SameTracker T.session.writer T'.session.writer)
    (hs : T'.submittedAt = T.submittedAt) (hd : T'.durableAt = T.durableAt)
    (hclock : T.clock ≤ T'.clock)
    (hbefore : ∀ turn, T'.session.worker.Called turn → turn.doCheckpoint = true → T'.before = n) :
    Aged n T' where
  fifo := by
    rw [hd]
    exact hf
  processed_le := by
    rw [hs]
    exact h.processed_le
  items := by
    rw [hs, hitems]
    exact h.items
  sorted := by
    rw [hs]
    exact h.sorted
  past := fun t ht => by
    rw [hs] at ht
    exact UInt64.le_trans (h.past t ht) hclock
  before := hbefore
  exact := h.exact.same htracker hs hd

/-- A submission is the last of those that are not covered. -/
theorem ExactAge.submit (h : ExactAge T) (hle : T.durableAt.length ≤ T.submittedAt.length)
    {now : UInt64} (hs : T'.submittedAt = T.submittedAt ++ [now]) (hd : T'.durableAt = T.durableAt)
    (hhave : T'.session.writer.haveOldestUndurable = true)
    (hold : T'.session.writer.oldestUndurableNs =
      if T.session.writer.haveOldestUndurable then T.session.writer.oldestUndurableNs else now)
    (hmax : T'.session.writer.metrics.maximumAcceptedToDurableNs =
      T.session.writer.metrics.maximumAcceptedToDurableNs) : ExactAge T' := by
  have hage (age : Int) : T'.IsAge age ↔ T.IsAge age := by
    unfold TimedSession.IsAge
    rw [hs, hd]
    refine exists_congr fun i => exists_congr fun accepted => exists_congr fun durable => ?_
    refine and_congr_left fun hc => ?_
    have hi := (List.getElem?_eq_some_iff.mp hc.1).1
    rw [List.getElem?_append_left (by omega)]
  refine ⟨?_, fun accepted hacc => ?_, ?_, ?_⟩
  · refine iff_of_true hhave ?_
    rw [hs, hd, List.length_append, List.length_singleton]
    omega
  · rw [hs, hd] at hacc
    rw [hold]
    by_cases hlt : T.durableAt.length < T.submittedAt.length
    · rw [List.getElem?_append_left hlt] at hacc
      rw [if_pos (h.undurable.mpr hlt)]
      exact h.oldest accepted hacc
    · rw [if_neg fun hc => hlt (h.undurable.mp hc)]
      have hzero : T.durableAt.length - T.submittedAt.length = 0 := by omega
      rw [List.getElem?_append_right (by omega), hzero] at hacc
      exact Option.some.inj hacc
  · rw [hmax, hd]
    exact h.none
  · rw [hmax, hd]
    simp only [hage]
    exact h.maximum

theorem Aged.submit (h : Aged n T) (hok : T.session.writer.backgroundStatus.isOk = true)
    (record : Bytes) (time : Int64) (flags : UInt32) (expected : Option AppendContract)
    {now : UInt64} (hnow : T.clock ≤ now) :
    Aged n { T with
      session := { T.session with
        writer := (T.session.writer.submitImpl record time flags expected now).2
        log := T.session.log ++
          if (T.session.writer.submitImpl record time flags expected now).1.isOk then
            [.accepted ⟨record, time, flags, expected⟩] else [] }
      clock := now
      submittedAt := T.submittedAt ++
        if (T.session.writer.submitImpl record time flags expected now).1.isOk then [now] else [] } := by
  have hf := h.fifo.submit record time flags expected now
  obtain ⟨-, ⟨href, hq, -, -⟩ | ⟨hacc, -, -, -, -, -, hq, -, -⟩⟩ :=
    submitImpl_cases T.session.writer record time flags expected now
  · have htr := submitImpl_refused T.session.writer record time flags expected now href
    refine h.same hf (by rw [hq]) htr ?_ rfl hnow h.before
    simp [href]
  · obtain ⟨hhave, hold, hmax⟩ :=
      submitImpl_tracks T.session.writer record time flags expected now hacc hok
    have hle := h.processed_le
    have hk := h.fifo.durable_le
    simp only [hacc, if_true] at hf ⊢
    refine ⟨hf, ?_, ?_, ?_, ?_, h.before, ?_⟩
    · rw [List.length_append]
      omega
    · rw [hq, ← List.append_assoc, List.map_append, h.items, List.drop_append_of_le_length hle]
      rfl
    · rw [List.pairwise_append]
      refine ⟨h.sorted, List.pairwise_singleton .., fun t ht t' ht' => ?_⟩
      rw [List.mem_singleton.mp ht']
      exact UInt64.le_trans (h.past t ht) hnow
    · intro t ht
      rcases List.mem_append.mp ht with ht | ht
      · exact UInt64.le_trans (h.past t ht) hnow
      · rw [List.mem_singleton.mp ht]
        exact UInt64.le_refl _
    · exact h.exact.submit (by omega) rfl rfl hhave hold hmax

theorem toNat_max (x y : UInt64) : (max x y).toNat = max x.toNat y.toNat := by
  have h : max x y = if x ≤ y then y else x := rfl
  rw [h]
  split
  · rename_i hxy
    exact (max_eq_right (UInt64.le_iff_toNat_le.mp hxy)).symm
  · rename_i hxy
    rw [UInt64.le_iff_toNat_le, not_le] at hxy
    exact (max_eq_left (Nat.le_of_lt hxy)).symm

theorem toNat_elapsedNs {start stop : UInt64} (h : start ≤ stop) :
    ((elapsedNs start stop).toNat : Int) = stop.toNat - start.toNat := by
  have hle := UInt64.le_iff_toNat_le.mp h
  rw [elapsedNs, if_pos h, UInt64.toNat_sub_of_le _ _ h]
  omega

/-- The ages when more submissions have become durable at one time: the oldest of them is the
greatest of the new ages. -/
theorem IsAge.checkpoint {k n : Nat} {now first : UInt64} {m : Nat} (hk : T.durableAt.length = k)
    (hkn : k < n) (hfirst : T.submittedAt[k]? = some first) (hnow : first ≤ now)
    (hsorted : T.submittedAt.Pairwise (· ≤ ·)) (hs : T'.submittedAt = T.submittedAt)
    (hd : T'.durableAt = T.durableAt ++ List.replicate (n - k) now)
    (hzero : T.durableAt = [] → m = 0)
    (hmax : T.durableAt ≠ [] → IsGreatest {age | T.IsAge age} (m : Int)) :
    IsGreatest {age | T'.IsAge age} (max (m : Int) (now.toNat - first.toNat)) := by
  have hle := UInt64.le_iff_toNat_le.mp hnow
  have hold (i : Nat) (hi : i < k) : T'.durableAt[i]? = T.durableAt[i]? := by
    rw [hd, List.getElem?_append_left (by omega)]
  refine ⟨?_, ?_⟩
  · rcases le_total (m : Int) (now.toNat - first.toNat) with hv | hv
    · -- the oldest of the new ones
      rw [max_eq_right hv]
      refine ⟨k, first, now, by rw [hs]; exact hfirst, ?_, rfl⟩
      rw [hd, List.getElem?_append_right (by omega), List.getElem?_replicate, if_pos (by omega)]
    · rw [max_eq_left hv]
      by_cases hnil : T.durableAt = []
      · have hm := hzero hnil
        refine ⟨k, first, now, by rw [hs]; exact hfirst, ?_, by omega⟩
        rw [hd, List.getElem?_append_right (by omega), List.getElem?_replicate, if_pos (by omega)]
      · obtain ⟨i, accepted, durable, ha, hdur, hage⟩ := (hmax hnil).1
        have hi := (List.getElem?_eq_some_iff.mp hdur).1
        exact ⟨i, accepted, durable, by rw [hs]; exact ha, by rw [hold i (by omega)]; exact hdur,
          hage⟩
  · rintro age ⟨i, accepted, durable, ha, hdur, rfl⟩
    rw [hs] at ha
    by_cases hi : i < k
    · rw [hold i hi] at hdur
      have hne : T.durableAt ≠ [] := fun hnil => by
        rw [hnil] at hdur
        cases hdur
      exact le_max_of_le_left ((hmax hne).2 ⟨i, accepted, durable, ha, hdur, rfl⟩)
    · rw [hd, List.getElem?_append_right (by omega)] at hdur
      obtain ⟨hin, rfl⟩ := List.getElem?_eq_some_iff.mp hdur
      rw [List.getElem_replicate]
      have hfa : first ≤ accepted := by
        obtain ⟨hik, rfl⟩ := List.getElem?_eq_some_iff.mp hfirst
        obtain ⟨hia, rfl⟩ := List.getElem?_eq_some_iff.mp ha
        rcases Nat.lt_or_eq_of_le (Nat.le_of_not_lt hi) with hlt | rfl
        · exact List.pairwise_iff_getElem.mp hsorted k i hik hia hlt
        · exact UInt64.le_refl _
      have := UInt64.le_iff_toNat_le.mp hfa
      refine le_max_of_le_right ?_
      omega

/-- A completed checkpoint covers what is processed. -/
theorem ExactAge.checkpoint (h : Aged n T) (hfew : T.submittedAt.length < 2 ^ 64)
    (htaken : T.session.worker.taken = []) {now : UInt64} (hnow : T.clock ≤ now)
    (hs : T'.submittedAt = T.submittedAt)
    (hd : T'.durableAt = T.durableAt ++ List.replicate (n - T.durableAt.length) now)
    (hw : SameTracker (T.session.writer.finishCheckpoint now) T'.session.writer) : ExactAge T' := by
  have hk := h.fifo.durable_le
  have hn := h.processed_le
  have hqueue : T.session.writer.queue.map AsyncItem.submittedAtNs = T.submittedAt.drop n := by
    have := h.items
    rwa [htaken, List.nil_append] at this
  have hadv : T.session.writer.processedSequence > T.session.writer.metrics.durableSequence ↔
      T.durableAt.length < n := by
    rw [h.fifo.processed, h.fifo.durable, gt_iff_lt, UInt64.lt_iff_toNat_lt, UInt64.toNat_ofNat',
      UInt64.toNat_ofNat', Nat.mod_eq_of_lt (by omega), Nat.mod_eq_of_lt (by omega)]
  by_cases hlt : T.durableAt.length < n
  · -- something new is covered
    have hsome : T.durableAt.length < T.submittedAt.length := by omega
    obtain ⟨first, hfirst⟩ : ∃ first, T.submittedAt[T.durableAt.length]? = some first :=
      ⟨_, List.getElem?_eq_getElem hsome⟩
    have hage : first ≤ now :=
      UInt64.le_trans (h.past first (List.mem_of_getElem? hfirst)) hnow
    obtain ⟨h1, h2, h3⟩ := finishCheckpoint_ages now (hadv.mpr hlt) (h.exact.undurable.mpr hsome)
    have hlen : T'.durableAt.length = n := by
      rw [hd, List.length_append, List.length_replicate]
      omega
    refine ⟨?_, fun accepted hacc => ?_, fun hnil => ?_, fun _ => ?_⟩
    · rw [hw.undurable, h1, hlen, hs, Bool.not_eq_true', List.isEmpty_eq_false_iff, ne_eq,
        ← List.map_eq_nil_iff (f := AsyncItem.submittedAtNs), hqueue, List.drop_eq_nil_iff]
      omega
    · rw [hlen, hs, ← List.head?_drop, ← hqueue, List.head?_map] at hacc
      obtain ⟨item, hitem, rfl⟩ := Option.map_eq_some_iff.mp hacc
      obtain ⟨queue, hq⟩ := List.head?_eq_some_iff.mp hitem
      rw [hw.oldest]
      exact h2 item queue hq
    · rw [hnil] at hlen
      simp only [List.length_nil] at hlen
      omega
    · have hgreatest := IsAge.checkpoint rfl hlt hfirst hage h.sorted hs hd
        (fun hnil => by rw [h.exact.none hnil]; rfl) h.exact.maximum
      rw [hw.maximum, h3, h.exact.oldest first hfirst, toNat_max, Nat.cast_max,
        toNat_elapsedNs hage]
      exact hgreatest
  · have hzero : n - T.durableAt.length = 0 := by omega
    rw [hzero, List.replicate_zero, List.append_nil] at hd
    obtain ⟨h1, h2, h3⟩ := finishCheckpoint_idle now fun hc => hlt (hadv.mp hc)
    exact h.exact.same ⟨hw.undurable.trans h1, hw.oldest.trans h2, hw.maximum.trans h3⟩ hs hd

theorem Aged.finish (h : Aged n T) (hfew : T.submittedAt.length < 2 ^ 64) {turn : Turn}
    {status : Status} {started now : UInt64} (hnow : T.clock ≤ now)
    (hw : T.session.worker = .returned turn status started) (hst : status.isOk = true) :
    Aged (n + turn.item.toList.length) { T with
      session := { T.session with
        writer := (T.session.writer.finishTurn turn status now).1
        worker := if (T.session.writer.finishTurn turn status now).2 then
          .waiting (if turn.doCheckpoint then now else started) else .ended }
      clock := now
      durableAt := T.durableAt ++ if status.isOk && turn.doCheckpoint then
        List.replicate (T.before - T.durableAt.length) now else [] } := by
  have hne : T.session.worker ≠ .ended := by rw [hw]; exact Worker.noConfusion
  obtain ⟨-, g⟩ := h.fifo.at_work hne
  have hturn : T.session.worker.turn = some turn := by rw [hw]; rfl
  have htaken : T.session.worker.taken = turn.item.toList := by rw [Worker.taken, hturn]; rfl
  obtain ⟨⟨-, hq, -, -, -, -⟩, -⟩ := @finishTurn_ok turn status now T.session.writer hst
  have hf := h.fifo.finish_ok now hw hst
  have hk := h.fifo.durable_le
  have hn := h.processed_le
  have hitems := h.items
  rw [htaken] at hitems
  have hdrop : T.session.writer.queue.map AsyncItem.submittedAtNs =
      T.submittedAt.drop (n + turn.item.toList.length) := by
    have hlen : (turn.item.toList.map AsyncItem.submittedAtNs).length = turn.item.toList.length :=
      List.length_map _
    rw [← List.drop_drop, ← hitems, ← hlen, List.map_append, List.drop_left]
  have hlength : n + turn.item.toList.length ≤ T.submittedAt.length := by
    have := congrArg List.length hitems
    rw [List.length_map, List.length_append, List.length_drop] at this
    omega
  have hidle (c : Bool) (later : UInt64) : (if c then Worker.waiting later else .ended).taken = [] ∧
      ∀ turn', ¬ (if c then Worker.waiting later else .ended).Called turn' := by
    cases c with
    | false => exact ⟨rfl, fun _ hc => hc⟩
    | true => exact ⟨rfl, fun _ hc => hc⟩
  obtain ⟨hfree, hcalled⟩ := hidle (T.session.writer.finishTurn turn status now).2
    (if turn.doCheckpoint then now else started)
  have hpast : ∀ t ∈ T.submittedAt, t ≤ now := fun t ht => UInt64.le_trans (h.past t ht) hnow
  rw [hst, Bool.true_and]
  cases hd : turn.doCheckpoint with
  | false =>
    rw [hd] at hf
    simp only [hd, Bool.false_eq_true, if_false, List.append_nil] at hf hfree hcalled ⊢
    refine ⟨hf, hlength, ?_, h.sorted, hpast, fun t hc => absurd hc (hcalled t), ?_⟩
    · rw [hfree, List.nil_append, hq]
      exact hdrop
    · exact h.exact.same (finishTurn_tracker now _ hst hd) rfl rfl
  | true =>
    have hnone := g.single turn hturn hd
    have hbefore : T.before = n := h.before turn (by rw [hw]; rfl) hd
    rw [hd] at hf
    simp only [hd, if_true, hbefore, hnone, Option.toList_none, List.length_nil, Nat.add_zero]
      at hf hfree hcalled hdrop hlength ⊢
    have hlen : (T.durableAt ++ List.replicate (n - T.durableAt.length) now).length = n := by
      rw [List.length_append, List.length_replicate]
      omega
    refine ⟨by rw [hlen]; exact hf, hlength, ?_, h.sorted, hpast,
      fun t hc => absurd hc (hcalled t), ?_⟩
    · rw [hfree, List.nil_append, hq]
      exact hdrop
    · refine ExactAge.checkpoint h hfew (by rw [htaken, hnone]; rfl) hnow rfl rfl ?_
      exact finishTurn_ages now _ hst hd hnone

/-- A step of a client that neither submits nor touches the tracker. -/
theorem Aged.quiet (h : Aged n T) {w : AsyncWriter} (hw : SameProgress T.session.writer w ∧
      w.queue = T.session.writer.queue ∧ w.queuedBytes = T.session.writer.queuedBytes ∧
      w.submittedSequence = T.session.writer.submittedSequence)
    (htr : SameTracker T.session.writer w) (bs : List WaitingBarrier) {l : List AsyncEvent}
    (hl : ∀ e ∈ l, e.Quiet)
    (hstop : ∀ status, .stopped status ∈ l →
      T.session.worker = .ended ∧ status = w.backgroundStatus) :
    Aged n { T with session := { T.session with
      writer := w, barriers := bs, log := T.session.log ++ l } } := by
  refine h.same (h.fifo.quiet hw.1 hw.2.1 hw.2.2.1 hw.2.2.2 bs hl hstop) ?_ htr rfl rfl
    (UInt64.le_refl _) h.before
  rw [hw.2.1]

/-- The first section of a turn: what the worker takes comes from the front of the queue. -/
theorem Aged.wake (h : Aged n T) {started now dequeuedAt : UInt64} (hnow : T.clock ≤ dequeuedAt)
    (hw : T.session.worker = .waiting started) :
    Aged n { T with
      session := { T.session with
        writer := (T.session.writer.takeTurn started now dequeuedAt).2
        worker := .calling (T.session.writer.takeTurn started now dequeuedAt).1 started }
      clock := dequeuedAt } := by
  have hf := h.fifo.wake now dequeuedAt hw
  have htaken : T.session.worker.taken = [] := by rw [hw]; rfl
  obtain ⟨item, queue, hq, heq⟩ | ⟨turn, heq, hitem, -⟩ :=
    takeTurn_cases T.session.writer started now dequeuedAt
  · rw [heq] at hf ⊢
    refine h.same hf ?_ ⟨rfl, rfl, rfl⟩ rfl rfl hnow fun _ hc => hc.elim
    rw [htaken, hq]
    rfl
  · rw [heq] at hf ⊢
    refine h.same hf ?_ ⟨rfl, rfl, rfl⟩ rfl rfl hnow fun _ hc => hc.elim
    rw [htaken]
    show ((some turn).bind Turn.item).toList ++ _ = _
    rw [Option.bind_some, hitem]
    rfl

/-- A step of the worker between its sections. -/
theorem Aged.worker (h : Aged n T) {worker : Worker} {log : List AsyncEvent} {before : Nat}
    (hf : Fifo n T.durableAt.length { T.session with worker := worker, log := log })
    (hturn : worker.turn = T.session.worker.turn)
    (hbefore : ∀ turn, worker.Called turn → turn.doCheckpoint = true → before = n) :
    Aged n { T with
      session := { T.session with worker := worker, log := log }, before := before } := by
  refine h.same hf ?_ ⟨rfl, rfl, rfl⟩ rfl rfl (UInt64.le_refl _) hbefore
  unfold Worker.taken
  rw [hturn]

/-- **One step of a timed session.** -/
theorem Aged.step (hs : TimedStep T T') (hfew : T.submittedAt.length < 2 ^ 64)
    (h : T.session.writer.backgroundStatus.isOk = true → ∃ n, Aged n T)
    (hok : T'.session.writer.backgroundStatus.isOk = true) : ∃ n, Aged n T' := by
  have hself : SameProgress T.session.writer T.session.writer ∧
      T.session.writer.queue = T.session.writer.queue ∧
      T.session.writer.queuedBytes = T.session.writer.queuedBytes ∧
      T.session.writer.submittedSequence = T.session.writer.submittedSequence :=
    ⟨⟨rfl, rfl, id, rfl, rfl, rfl, rfl⟩, rfl, rfl, rfl⟩
  have hevent {e : AsyncEvent} (he : e.Quiet) : ∀ e' ∈ [e], e'.Quiet := fun e' he' => by
    rw [List.mem_singleton.mp he']
    exact he
  cases hs with
  | submit record time flags expected now hnow =>
    have hbg : T.session.writer.backgroundStatus.isOk = true := by
      rw [← (submitImpl_cases T.session.writer record time flags expected now).1.status]
      exact hok
    obtain ⟨n, hn⟩ := h hbg
    exact ⟨n, hn.submit hbg record time flags expected hnow⟩
  | checkpoint hreq =>
    have hsame := requestCheckpoint_same hreq
    have hbg : T.session.writer.backgroundStatus.isOk = true := by
      rw [← hsame.1.status]
      exact hok
    obtain ⟨n, hn⟩ := h hbg
    have := hn.quiet hsame (requestCheckpoint_tracker hreq) (T.session.barriers ++
      [⟨T.session.writer.submittedSequence, (submissions T.session.log).length⟩]) (l := [])
      (by simp) (by simp)
    rw [List.append_nil] at this
    exact ⟨n, this⟩
  | checkpointReturn hb hret =>
    obtain ⟨n, hn⟩ := h hok
    exact ⟨n, hn.quiet hself ⟨rfl, rfl, rfl⟩ _
      (hevent ⟨rfl, rfl, rfl, fun op => AsyncEvent.noConfusion⟩) (by simp)⟩
  | stop =>
    have hsame := requestStop_same T.session.writer
    have hbg : T.session.writer.backgroundStatus.isOk = true := by
      rw [← hsame.1.status]
      exact hok
    obtain ⟨n, hn⟩ := h hbg
    have := hn.quiet hsame (requestStop_tracker _) T.session.barriers (l := []) (by simp) (by simp)
    rw [List.append_nil] at this
    exact ⟨n, this⟩
  | stopReturn hw =>
    obtain ⟨n, hn⟩ := h hok
    refine ⟨n, hn.quiet hself ⟨rfl, rfl, rfl⟩ T.session.barriers
      (hevent ⟨rfl, rfl, rfl, fun op => AsyncEvent.noConfusion⟩) ?_⟩
    intro status hst
    cases List.mem_singleton.mp hst
    exact ⟨hw, rfl⟩
  | @wake started now dequeuedAt hnow hdequeued hw =>
    have hbg : T.session.writer.backgroundStatus.isOk = true := by
      obtain ⟨item, queue, -, heq⟩ | ⟨turn, heq, -, -⟩ :=
        takeTurn_cases T.session.writer started now dequeuedAt
      · rw [heq] at hok
        exact hok
      · rw [heq] at hok
        exact hok
    obtain ⟨n, hn⟩ := h hbg
    exact ⟨n, hn.wake (UInt64.le_trans hnow hdequeued) hw⟩
  | skip hw hop =>
    obtain ⟨n, hn⟩ := h hok
    refine ⟨n, hn.worker (hn.fifo.skip hw hop) (by rw [hw]; rfl) fun turn hc hd => ?_⟩
    cases hc
    rw [(Turn.op_none hop).1] at hd
    cases hd
  | @workerCall turn started op hw hop =>
    obtain ⟨n, hn⟩ := h hok
    refine ⟨n, hn.worker (hn.fifo.workerCall hw hop) (by rw [hw]; rfl) fun turn' hc hd => ?_⟩
    cases hc
    have hcount := (hn.fifo.going hok).count
    rw [if_pos hd, hcount, hw]
    rfl
  | @workerReturn turn started op status hw hop =>
    obtain ⟨n, hn⟩ := h hok
    refine ⟨n, hn.worker (hn.fifo.workerReturn status hw hop) (by rw [hw]; rfl) ?_⟩
    intro turn' hc hd
    cases hc
    exact hn.before turn (by rw [hw]; rfl) hd
  | @finish turn status started now hnow hw =>
    cases hst : status.isOk with
    | false =>
      rw [finishTurn_failed now T.session.writer hst] at hok
      replace hok : status.isOk = true := hok
      rw [hst] at hok
      cases hok
    | true =>
      have hbg : T.session.writer.backgroundStatus.isOk = true := by
        rw [← (@finishTurn_ok turn status now T.session.writer hst).1.2.2.2.2.2]
        exact hok
      obtain ⟨n, hn⟩ := h hbg
      have := hn.finish hfew hnow hw hst
      rw [hst] at this
      exact ⟨_, this⟩

/-- The number of submissions only grows. -/
theorem TimedStep.submittedAt_le (hs : TimedStep T T') :
    T.submittedAt.length ≤ T'.submittedAt.length := by
  cases hs with
  | submit record time flags expected now hnow =>
    rw [List.length_append]
    exact Nat.le_add_right ..
  | _ => exact Nat.le_refl _

theorem start_eq {w₀ w : AsyncWriter} {storeStatus : Status} (h : w₀.start storeStatus = .ok w) :
    w = { options := w₀.options, running := true } := by
  unfold AsyncWriter.start at h
  split at h
  · cases h
  split at h
  · cases h
  split at h
  · cases h
  split at h
  · cases h
  · cases h
    rfl

theorem TimedReach.aged (hT : TimedReach T) (hfew : T.submittedAt.length < 2 ^ 64)
    (hok : T.session.writer.backgroundStatus.isOk = true) : ∃ n, Aged n T := by
  induction hT with
  | @start w₀ w storeStatus started clock h =>
    have hfifo := Fifo.start started h
    obtain rfl := start_eq h
    refine ⟨0, hfifo, Nat.zero_le _, rfl, .nil, fun t ht => (by cases ht),
      fun turn hc => hc.elim, ?_⟩
    refine ⟨?_, fun accepted ha => (by cases ha), fun _ => rfl, fun hne => absurd rfl hne⟩
    exact iff_of_false Bool.false_ne_true (Nat.lt_irrefl 0)
  | step hT hs ih =>
    have hless := Nat.lt_of_le_of_lt hs.submittedAt_le hfew
    exact Aged.step hs hless (ih hless) hok

end

/-- **The oldest undurable submission is tracked exactly.**  In every session with fewer than
`2 ^ 64` accepted submissions and a clock that never goes back, as long as no failure is reported:
the flag is set while a submission is not covered by a completed checkpoint, the time is that of the
oldest such submission, and the maximum is the greatest age at which a submission was covered. -/
theorem oldest_undurable_exact {T : TimedSession} (hT : TimedReach T)
    (hfew : T.submittedAt.length < 2 ^ 64)
    (hok : T.session.writer.backgroundStatus.isOk = true) :
    ExactAge T ∧ T.submittedAt.length = (submissions T.session.log).length ∧
      Covered T.session.log T.durableAt.length := by
  obtain ⟨n, h⟩ := hT.aged hfew hok
  have hcount := (h.fifo.going hok).counted
  have hitems := congrArg List.length h.items
  rw [List.length_map, List.length_append, List.length_drop] at hitems
  have hle := h.processed_le
  exact ⟨h.exact, by omega, h.fifo.covered⟩

/-! ## Sessions between two records -/

theorem takeTurn_tracker (w : AsyncWriter) (started now dequeuedAt : UInt64) :
    SameTracker w (w.takeTurn started now dequeuedAt).2 := by
  obtain ⟨item, queue, -, heq⟩ | ⟨turn, heq, -, -⟩ := takeTurn_cases w started now dequeuedAt
  · rw [heq]
    exact ⟨rfl, rfl, rfl⟩
  · rw [heq]
    exact ⟨rfl, rfl, rfl⟩

/-- The worker waits, and `m` records were accepted and appended. -/
structure TimedResting (s now : UInt64) (m : Nat) (T : TimedSession) : Prop where
  reach : TimedReach T
  rest : Resting s now T.session
  clock : T.clock = now
  accepted : T.submittedAt.length = m
  appended : (appendeds T.session.log).length = m

section
variable {s now : UInt64} {m : Nat} {T : TimedSession}

/-- A record is accepted, taken and appended. -/
theorem TimedResting.append (h : TimedResting s now m T) : ∃ T',
    TimedResting (s + 1) now (m + 1) T' ∧
    T'.submittedAt = T.submittedAt ++ [now] ∧ T'.durableAt = T.durableAt ∧
    T'.session.writer.haveOldestUndurable = true ∧
    T'.session.writer.metrics.durableSequence = T.session.writer.metrics.durableSequence := by
  obtain ⟨hreach, hrest, rfl, rfl, hcount⟩ := h
  obtain ⟨hok, w, htake, hsame, hq, hb, hstop, hreq, hs⟩ := hrest.taken 7
  obtain ⟨hhave, -, -⟩ := submitImpl_tracks T.session.writer [7] 1 0 none T.clock hok
    (by rw [hrest.status]; rfl)
  have htracker := takeTurn_tracker (T.session.writer.submitImpl [7] 1 0 none T.clock).2 T.clock
    T.clock T.clock
  rw [htake] at htracker
  have h1 := hreach.step (.submit T [7] 1 0 none T.clock (UInt64.le_refl _))
  have h2 := h1.step (.wake _ T.clock T.clock (UInt64.le_refl _) (UInt64.le_refl _) hrest.worker)
  simp only [htake, if_pos hok] at h2
  have h3 := h2.step (.workerCall _ rfl rfl)
  have h4 := h3.step (.workerReturn _ {} rfl rfl)
  have h5 := h4.step (.finish _ T.clock (UInt64.le_refl _) rfl)
  obtain ⟨hrest', hdur⟩ := hrest.report 7 hsame hq hb hstop hreq hs rfl
    (T.session.log ++ [.accepted ⟨[7], 1, 0, none⟩] ++ [.called (.append [7] 1 0)] ++
      [.returned (.append [7] 1 0) {}])
  refine ⟨_, ⟨h5, hrest', rfl, ?_, ?_⟩, rfl, List.append_nil _, ?_, hdur⟩
  · exact List.length_append
  · simp only [appendeds_append, List.length_append, hcount]
    rfl
  · exact (finishTurn_tracker T.clock w rfl rfl).undurable.trans (htracker.undurable.trans hhave)

/-- A checkpoint that the timer asks for. -/
theorem TimedResting.checkpoint (h : TimedResting s now m T) {later : UInt64}
    (hdue : intervalElapsed now later 1000000000 = true) : ∃ T', TimedResting s later m T' ∧
    T'.submittedAt = T.submittedAt ∧
    T'.durableAt = T.durableAt ++ List.replicate (m - T.durableAt.length) later ∧
    T'.session.writer.metrics.durableSequence = s ∧
    (¬ s > T.session.writer.metrics.durableSequence →
      T'.session.writer.haveOldestUndurable = T.session.writer.haveOldestUndurable) := by
  obtain ⟨hreach, hrest, rfl, hlen, hcount⟩ := h
  have hle : T.clock ≤ later := by
    unfold intervalElapsed at hdue
    exact of_decide_eq_true (Bool.and_eq_true_iff.mp hdue).1
  have h1 := hreach.step (.wake _ later later hle (UInt64.le_refl _) hrest.worker)
  rw [hrest.due hdue] at h1
  have h2 := h1.step (.workerCall _ rfl rfl)
  have h3 := h2.step (.workerReturn _ {} rfl rfl)
  have h4 := h3.step (.finish _ later (UInt64.le_refl _) rfl)
  obtain ⟨hrest', hdur, -⟩ := hrest.done later rfl
    (T.session.log ++ [.called .checkpoint] ++ [.returned .checkpoint {}])
  refine ⟨_, ⟨h4, hrest', rfl, hlen, ?_⟩, rfl, ?_, hdur, fun hidle => ?_⟩
  · simp only [appendeds_append, List.length_append, hcount]
    rfl
  · rw [← hcount]
    rfl
  · rw [← hrest.processed] at hidle
    exact (finishTurn_ages later _ rfl rfl rfl).undurable.trans
      (finishCheckpoint_idle later hidle).undurable

/-- A session that is just started. -/
theorem TimedResting.start : TimedResting 0 0 0
    { session := { writer := { running := true }, worker := .waiting 0 }, clock := 0 } := by
  have hstart : AsyncWriter.start {} {} = .ok { running := true } := rfl
  exact ⟨.start 0 0 hstart, .start 0 hstart, rfl, rfl, rfl⟩

/-- Any number of records, one after the other. -/
theorem TimedResting.appends (n : Nat) : ∃ T, TimedResting (.ofNat n) 0 n T ∧ T.durableAt = [] := by
  induction n with
  | zero => exact ⟨_, .start, rfl⟩
  | succ n ih =>
    obtain ⟨T, hT, hd⟩ := ih
    obtain ⟨T', hT', -, hd', -⟩ := hT.append
    rw [UInt64.ofNat_add]
    exact ⟨T', hT', hd'.trans hd⟩

end

/-- One record, covered a second behind its submission. -/
theorem covered_record_age : ∃ T, TimedReach T ∧ T.submittedAt = [0] ∧
    T.durableAt = [1000000000] ∧ T.session.writer.haveOldestUndurable = false ∧
    T.session.writer.metrics.maximumAcceptedToDurableNs = 1000000000 := by
  obtain ⟨T₁, h₁, hs₁, hd₁, -⟩ := TimedResting.start.append
  have hdue : intervalElapsed 0 1000000000 1000000000 = true := by decide
  obtain ⟨T₂, h₂, hs₂, hd₂, -⟩ := h₁.checkpoint hdue
  rw [hs₁] at hs₂
  rw [hd₁] at hd₂
  replace hs₂ : T₂.submittedAt = [0] := hs₂
  replace hd₂ : T₂.durableAt = [1000000000] := hd₂
  obtain ⟨hexact, -⟩ := oldest_undurable_exact h₂.reach (by rw [hs₂]; decide)
    (by rw [h₂.rest.status]; rfl)
  have hflag : T₂.session.writer.haveOldestUndurable = false := by
    rw [Bool.eq_false_iff, ne_eq, hexact.undurable, hs₂, hd₂]
    exact Nat.lt_irrefl 1
  obtain ⟨i, accepted, durable, hacc, hdur, hmax⟩ := (hexact.maximum (by rw [hd₂]; simp)).1
  refine ⟨T₂, h₂.reach, hs₂, hd₂, hflag, ?_⟩
  rw [hs₂] at hacc
  rw [hd₂] at hdur
  have hi := (List.getElem?_eq_some_iff.mp hacc).1
  obtain rfl : i = 0 := Nat.lt_one_iff.mp hi
  cases hacc
  cases hdur
  exact UInt64.toNat_inj.mp (Int.ofNat_inj.mp hmax)

/-- **Where the tracking ends**: the checkpoint behind `2 ^ 64` submissions covers all of them, and
the flag stays set. -/
theorem oldest_undurable_wraps : ∃ T, TimedReach T ∧
    T.session.writer.backgroundStatus.isOk = true ∧ T.durableAt.length = T.submittedAt.length ∧
    T.session.writer.haveOldestUndurable = true ∧ ¬ ExactAge T := by
  obtain ⟨T, hT, hd⟩ := TimedResting.appends (2 ^ 64 - 1)
  have hdue : intervalElapsed 0 1000000000 1000000000 = true := by decide
  obtain ⟨T₁, h₁, -, hd₁, hdur₁, -⟩ := hT.checkpoint hdue
  obtain ⟨T₂, h₂, -, hd₂, hflag₂, hdur₂⟩ := h₁.append
  have hdue' : intervalElapsed 1000000000 2000000000 1000000000 = true := by decide
  obtain ⟨T₃, h₃, -, hd₃, -, hflag₃⟩ := h₂.checkpoint hdue'
  have hlen₁ : T₁.durableAt.length = 2 ^ 64 - 1 := by
    rw [hd₁, hd, List.nil_append, List.length_replicate]
    rfl
  have hlen : T₃.durableAt.length = T₃.submittedAt.length := by
    rw [h₃.accepted, hd₃, hd₂, List.length_append, List.length_replicate, hlen₁]
    omega
  have hflag : T₃.session.writer.haveOldestUndurable = true := by
    rw [hflag₃ ?_, hflag₂]
    rw [hdur₂, hdur₁]
    decide
  refine ⟨T₃, h₃.reach, by rw [h₃.rest.status]; rfl, hlen, hflag, fun hexact => ?_⟩
  have := hexact.undurable.mp hflag
  omega

end TFDB
