import TFDB.Fifo

/-!
# Checkpoints of the asynchronous writer

`checkpoint` reads the number of the last accepted submission and waits until a barrier with that
number is completed.  Over the sessions of `Fifo.lean`:

* `Barriers` — the invariant of the waiting and the returned checkpoints, and of failures;
* `AsyncSteps.durable_failed` — once a call of the store has failed nothing becomes durable any more;
* `async_barrier` — a checkpoint that returns `Ok` covers every submission accepted before it, the
  durable sequence only grows, and a reported failure is final.  The numbers are 64 bits wide, so
  this is for sessions with fewer than `2 ^ 64` accepted submissions;
* `async_barrier_limits` — the numbers do wrap behind that, and between the return of a failed
  call and its report a submission is still accepted.
-/

set_option autoImplicit false

namespace TFDB

open ByteLib Writer

def AsyncEvent.failure : AsyncEvent → Option Status
  | .returned _ status => if status.isOk then none else some status
  | _ => none

/-- The statuses of the calls that failed, oldest first. -/
def failures (log : List AsyncEvent) : List Status := log.filterMap AsyncEvent.failure

@[simp] theorem failures_append (l₁ l₂ : List AsyncEvent) :
    failures (l₁ ++ l₂) = failures l₁ ++ failures l₂ := List.filterMap_append

@[simp] theorem failures_singleton (e : AsyncEvent) : failures [e] = e.failure.toList := by
  rw [failures, List.filterMap_cons]
  cases e.failure <;> rfl

theorem mem_failures {log : List AsyncEvent} {op : Op} {status : Status}
    (h : .returned op status ∈ log) (hst : status.isOk = false) : status ∈ failures log := by
  refine List.mem_filterMap.mpr ⟨_, h, ?_⟩
  simp [AsyncEvent.failure, hst]

/-- The failure the worker has not reported yet. -/
def Worker.failure : Worker → List Status
  | .returned _ status _ => if status.isOk then [] else [status]
  | _ => []

/-! ## The invariant -/

structure Barriers (z : AsyncSession) : Prop where
  waiting : ∀ b ∈ z.barriers, b.target = .ofNat b.before ∧ b.before ≤ (submissions z.log).length
  synced : ∀ before status, .synced before status ∈ z.log → status.isOk = true →
    (submissions z.log).length < 2 ^ 64 → Covered z.log before
  failures : failures z.log =
    if z.writer.backgroundStatus.isOk then z.worker.failure else [z.writer.backgroundStatus]

section
variable {n k : Nat} {z z' : AsyncSession}

/-- A log that grows by events other than the return of a checkpoint. -/
theorem Barriers.grow (h : Barriers z) (hb : z'.barriers = z.barriers) {l : List AsyncEvent}
    (hlog : z'.log = z.log ++ l) (hl : ∀ before status, .synced before status ∉ l)
    (hf : TFDB.failures (z.log ++ l) = if z'.writer.backgroundStatus.isOk then z'.worker.failure
      else [z'.writer.backgroundStatus]) : Barriers z' := by
  constructor
  · rw [hb, hlog, submissions_append, List.length_append]
    intro b hbm
    obtain ⟨h1, h2⟩ := h.waiting b hbm
    exact ⟨h1, by omega⟩
  · rw [hlog, submissions_append, List.length_append]
    intro before status hm hok hlt
    rcases List.mem_append.mp hm with hm | hm
    · exact (h.synced before status hm hok (by omega)).append l
    · exact absurd hm (hl before status)
  · rw [hlog]
    exact hf

/-- Such a step that leaves the log and the failures as they are. -/
theorem Barriers.same (h : Barriers z) (hb : z'.barriers = z.barriers) (hlog : z'.log = z.log)
    (hs : z'.writer.backgroundStatus = z.writer.backgroundStatus)
    (hw : z'.worker.failure = z.worker.failure) : Barriers z' := by
  refine h.grow hb (l := []) (by rw [hlog, List.append_nil]) (by simp) ?_
  rw [List.append_nil, hs, hw]
  exact h.failures

/-- `checkpoint` returns `Ok` only behind the barrier it waits for. -/
theorem awaitBarrier_ok {target : UInt64} {w : AsyncWriter} {status : Status}
    (h : w.awaitBarrier target = some status) (hok : status.isOk = true) :
    target ≤ w.completedBarrier := by
  unfold AsyncWriter.awaitBarrier at h
  split at h
  · split at h
    · rename_i hbg
      cases h
      exact absurd hok hbg
    · split at h
      · cases h
        cases hok
      · exact UInt64.not_lt.mp ‹_›
  · cases h

/-- A number below `2 ^ 64` is kept. -/
theorem ofNat_le_ofNat {a b : Nat} (hb : b < 2 ^ 64) (ha : a < 2 ^ 64) :
    UInt64.ofNat a ≤ UInt64.ofNat b ↔ a ≤ b := by
  rw [UInt64.le_iff_toNat_le, UInt64.toNat_ofNat', UInt64.toNat_ofNat', Nat.mod_eq_of_lt ha,
    Nat.mod_eq_of_lt hb]

theorem Fifo.durable_count (h : Fifo n k z) : n ≤ (submissions z.log).length := by
  have h1 := h.appendeds.length_le
  have h2 := h.appends.length_le
  have h3 := h.processed_le
  omega

/-- A checkpoint that returns. -/
theorem Barriers.return (h : Barriers z) (hf : Fifo n k z) {bs cs : List WaitingBarrier}
    {b : WaitingBarrier} {status : Status} (hb : z.barriers = bs ++ b :: cs)
    (hret : z.writer.awaitBarrier b.target = some status) :
    Barriers { z with barriers := bs ++ cs, log := z.log ++ [.synced b.before status] } := by
  have hmem : b ∈ z.barriers := by rw [hb]; simp
  constructor
  · intro c hc
    have hc' : c ∈ z.barriers := by
      rw [hb]
      rcases List.mem_append.mp hc with hc | hc
      · exact List.mem_append_left _ hc
      · exact List.mem_append_right _ (List.mem_cons_of_mem _ hc)
    simpa using h.waiting c hc'
  · intro before st hm hok hlt
    replace hlt : (submissions z.log).length < 2 ^ 64 := by simpa using hlt
    rcases List.mem_append.mp hm with hm | hm
    · exact (h.synced before st hm hok hlt).append _
    · cases List.mem_singleton.mp hm
      obtain ⟨ht, hle⟩ := h.waiting b hmem
      have hbar := awaitBarrier_ok hret hok
      have hdur := hf.durable_le
      have hcount := hf.durable_count
      rw [ht, hf.completed, ofNat_le_ofNat (by omega) (by omega)] at hbar
      exact (hf.covered.mono hbar).append _
  · simpa [AsyncEvent.failure] using h.failures

/-- **One step of a session.** -/
theorem Barriers.step (h : Barriers z) (hf : Fifo n k z) (hs : AsyncStep z z') : Barriers z' := by
  cases hs with
  | submit record time flags expected now =>
    obtain ⟨hsame, -⟩ := submitImpl_cases z.writer record time flags expected now
    refine h.grow rfl rfl ?_ ?_
    · intro before status hm
      split at hm <;> simp at hm
    · have hnone : TFDB.failures (if (z.writer.submitImpl record time flags expected now).1.isOk then
          [.accepted ⟨record, time, flags, expected⟩] else []) = [] := by split <;> rfl
      rw [failures_append, hnone, List.append_nil, hsame.status]
      exact h.failures
  | checkpoint hreq =>
    obtain ⟨hsame, -⟩ := requestCheckpoint_same hreq
    refine ⟨?_, h.synced, ?_⟩
    · intro b hb
      rcases List.mem_append.mp hb with hb | hb
      · exact h.waiting b hb
      · rw [List.mem_singleton.mp hb]
        refine ⟨?_, Nat.le_refl _⟩
        have hok : z.writer.backgroundStatus.isOk = true := by
          unfold AsyncWriter.requestCheckpoint at hreq
          split at hreq
          · cases hreq
          · exact not_not.mp ‹_›
        have g := hf.going hok
        rw [g.counted]
        exact g.sequence
    · rw [hsame.status]
      exact h.failures
  | checkpointReturn hb hret => exact h.return hf hb hret
  | stop => exact h.same rfl rfl (requestStop_same z.writer).1.status rfl
  | stopReturn hw =>
    refine h.grow rfl rfl (by simp) ?_
    simpa [AsyncEvent.failure] using h.failures
  | wake now dequeuedAt hw =>
    refine h.same rfl rfl ?_ (by rw [hw]; rfl)
    obtain ⟨item, queue, -, heq⟩ | ⟨turn, heq, -⟩ := takeTurn_cases z.writer _ now dequeuedAt
    · rw [heq]
    · rw [heq]
  | skip hw hop => exact h.same rfl rfl rfl (by rw [hw]; rfl)
  | workerCall hw hop =>
    refine h.grow rfl rfl (by simp) ?_
    have hfail := h.failures
    rw [hw] at hfail
    simpa [AsyncEvent.failure, Worker.failure] using hfail
  | @workerReturn turn started op status hw hop =>
    refine h.grow rfl rfl (by simp) ?_
    have hne : z.worker ≠ .ended := by rw [hw]; exact Worker.noConfusion
    have hfail := h.failures
    rw [(hf.at_work hne).1, if_pos rfl, hw] at hfail
    rw [failures_append, hfail, (hf.at_work hne).1, if_pos rfl]
    cases hst : status.isOk <;> simp [Worker.failure, AsyncEvent.failure, hst]
  | @finish turn status started durableAt hw =>
    have hne : z.worker ≠ .ended := by rw [hw]; exact Worker.noConfusion
    have hfail := h.failures
    rw [(hf.at_work hne).1, if_pos rfl, hw] at hfail
    refine h.grow rfl (l := []) (List.append_nil _).symm (by simp) ?_
    rw [List.append_nil, hfail]
    cases hst : status.isOk with
    | false =>
      rw [finishTurn_failed durableAt z.writer hst]
      simp [Worker.failure, AsyncWriter.failBackground, hst]
    | true =>
      obtain ⟨⟨-, -, -, -, -, hbg⟩, -⟩ := @finishTurn_ok turn status durableAt z.writer hst
      rw [hbg, (hf.at_work hne).1, if_pos rfl]
      split <;> simp [Worker.failure, hst]

/-- Every state of a session satisfies the invariant. -/
theorem AsyncReach.barriers (hz : AsyncReach z) : Barriers z := by
  induction hz with
  | start now h =>
    have hf := Fifo.start now h
    refine ⟨by simp, by simp, ?_⟩
    cases hok : AsyncWriter.backgroundStatus _ |>.isOk with
    | true => rfl
    | false => exact absurd (hf.failed hok).1 Worker.noConfusion
  | step hz hs ih =>
    obtain ⟨n, k, hf⟩ := hz.fifo
    exact ih.step hf hs

/-! ## What a failure leaves -/

/-- Only the report of a call that succeeded changes the durable sequence. -/
theorem AsyncStep.durable (hs : AsyncStep z z') :
    z'.writer.metrics.durableSequence = z.writer.metrics.durableSequence ∨
    ∃ turn status started, z.worker = .returned turn status started ∧ status.isOk = true := by
  cases hs with
  | submit record time flags expected now =>
    exact .inl (submitImpl_cases z.writer record time flags expected now).1.durable
  | checkpoint hreq => exact .inl (requestCheckpoint_same hreq).1.durable
  | checkpointReturn hb hret => exact .inl rfl
  | stop => exact .inl (requestStop_same z.writer).1.durable
  | stopReturn hw => exact .inl rfl
  | wake now dequeuedAt hw =>
    obtain ⟨item, queue, -, heq⟩ | ⟨turn, heq, -⟩ := takeTurn_cases z.writer _ now dequeuedAt
    · exact .inl (by rw [heq])
    · exact .inl (by rw [heq])
  | skip hw hop => exact .inl rfl
  | workerCall hw hop => exact .inl rfl
  | workerReturn status hw hop => exact .inl rfl
  | @finish turn status started durableAt hw =>
    cases hst : status.isOk with
    | false => exact .inl (by rw [finishTurn_failed durableAt z.writer hst]; rfl)
    | true => exact .inr ⟨turn, status, started, hw, hst⟩

/-- Behind the failure of a call the worker has nothing to report but that failure. -/
theorem Barriers.failing (h : Barriers z) (hf : Fifo n k z) (hfail : TFDB.failures z.log ≠ [])
    {turn : Turn} {status : Status} {started : UInt64}
    (hw : z.worker = .returned turn status started) : status.isOk = false := by
  have hne : z.worker ≠ .ended := by rw [hw]; exact Worker.noConfusion
  have hlist := h.failures
  rw [(hf.at_work hne).1, if_pos rfl, hw] at hlist
  cases hst : status.isOk with
  | false => rfl
  | true =>
    rw [hlist] at hfail
    simp [Worker.failure, hst] at hfail

/-- A log only grows. -/
theorem AsyncStep.log (hs : AsyncStep z z') : z.log <+: z'.log := by
  cases hs <;> first | exact List.prefix_rfl | exact List.prefix_append _ _

theorem AsyncSteps.log (hs : AsyncSteps z z') : z.log <+: z'.log := by
  induction hs with
  | refl => exact List.prefix_rfl
  | step _ hs ih => exact ih.trans hs.log

/-- Nothing becomes durable behind a failure. -/
theorem AsyncSteps.durable_failed (hz : AsyncReach z) (hs : AsyncSteps z z')
    (hfail : failures z.log ≠ []) :
    z'.writer.metrics.durableSequence = z.writer.metrics.durableSequence := by
  induction hs with
  | refl => rfl
  | step h hs ih =>
    have hz' := hz.steps h
    obtain ⟨n, k, hf⟩ := hz'.fifo
    rcases hs.durable with heq | ⟨turn, status, started, hw, hok⟩
    · exact heq.trans ih
    · have hgrow : failures z.log <+: failures _ := h.log.filterMap _
      have hne : failures _ ≠ [] := fun hnil => hfail (List.prefix_nil.mp (hnil ▸ hgrow))
      rw [hz'.barriers.failing hf hne hw] at hok
      cases hok

/-- The report of a failure is final. -/
theorem AsyncStep.reported (hs : AsyncStep z z') (hf : Fifo n k z)
    (hbg : z.writer.backgroundStatus.isOk = false) :
    z'.writer.backgroundStatus = z.writer.backgroundStatus ∧ z'.worker = .ended ∧
      z'.writer.running = false := by
  obtain ⟨hend, hrun⟩ := hf.failed hbg
  have hsame {w : AsyncWriter} (h : SameProgress z.writer w) :
      w.backgroundStatus = z.writer.backgroundStatus ∧ w.running = false :=
    ⟨h.status, h.running.trans hrun⟩
  cases hs with
  | submit record time flags expected now =>
    obtain ⟨h1, h2⟩ := hsame (submitImpl_cases z.writer record time flags expected now).1
    exact ⟨h1, hend, h2⟩
  | checkpoint hreq =>
    obtain ⟨h1, h2⟩ := hsame (requestCheckpoint_same hreq).1
    exact ⟨h1, hend, h2⟩
  | checkpointReturn hb hret => exact ⟨rfl, hend, hrun⟩
  | stop =>
    obtain ⟨h1, h2⟩ := hsame (requestStop_same z.writer).1
    exact ⟨h1, hend, h2⟩
  | stopReturn hw => exact ⟨rfl, hend, hrun⟩
  | wake now dequeuedAt hw => rw [hend] at hw; cases hw
  | skip hw hop => rw [hend] at hw; cases hw
  | workerCall hw hop => rw [hend] at hw; cases hw
  | workerReturn status hw hop => rw [hend] at hw; cases hw
  | finish durableAt hw => rw [hend] at hw; cases hw

theorem AsyncSteps.reported (hz : AsyncReach z) (hs : AsyncSteps z z')
    (hbg : z.writer.backgroundStatus.isOk = false) :
    z'.writer.backgroundStatus = z.writer.backgroundStatus ∧ z'.worker = .ended ∧
      z'.writer.running = false := by
  induction hs with
  | refl =>
    obtain ⟨n, k, hf⟩ := hz.fifo
    exact ⟨rfl, hf.failed hbg⟩
  | step h hs ih =>
    obtain ⟨hst, hend, hrun⟩ := ih
    obtain ⟨n, k, hf⟩ := (hz.steps h).fifo
    obtain ⟨hst', hend', hrun'⟩ := hs.reported hf (by rw [hst]; exact hbg)
    exact ⟨hst'.trans hst, hend', hrun'⟩

/-- The durable sequence of a session grows with its counts. -/
theorem AsyncSteps.fifo (hs : AsyncSteps z z') (h : Fifo n k z) :
    ∃ n' k', k ≤ k' ∧ Fifo n' k' z' := by
  induction hs with
  | refl => exact ⟨n, k, Nat.le_refl k, h⟩
  | step _ hs ih =>
    obtain ⟨n₁, k₁, hk₁, h₁⟩ := ih
    obtain ⟨n₂, k₂, -, hk₂, h₂⟩ := h₁.step hs
    exact ⟨n₂, k₂, hk₁.trans hk₂, h₂⟩

end

/-- What every call of a writer returns behind a reported failure. -/
structure Reports (failure : Status) (z : AsyncSession) : Prop where
  submit : ∀ record time flags expected now,
    z.writer.submitImpl record time flags expected now = (failure, z.writer)
  checkpoint : z.writer.requestCheckpoint = .error failure
  /-- The checkpoints that wait. -/
  barrier : ∀ target, z.writer.awaitBarrier target = some failure
  start : ∀ storeStatus, z.writer.start storeStatus = .error failure
  /-- `stop` does not wait. -/
  stop : z.writer.requestStop = z.writer ∧ z.worker = .ended ∧
    z.writer.backgroundStatus = failure

theorem Reports.of_failed {z : AsyncSession} (hend : z.worker = .ended)
    (hrun : z.writer.running = false) (hbg : z.writer.backgroundStatus.isOk = false) :
    Reports z.writer.backgroundStatus z := by
  constructor
  · intro record time flags expected now
    unfold AsyncWriter.submitImpl
    rw [if_pos (by simp [hbg])]
  · unfold AsyncWriter.requestCheckpoint
    rw [if_pos (by simp [hbg])]
  · intro target
    unfold AsyncWriter.awaitBarrier
    rw [if_pos (by simp [hbg]), if_pos (by simp [hbg])]
  · intro storeStatus
    unfold AsyncWriter.start
    rw [if_neg (by simp [hrun]), if_pos (by simp [hbg])]
  · unfold AsyncWriter.requestStop
    rw [if_neg (by simp [hrun])]
    exact ⟨rfl, hend, rfl⟩

/-! ## The durable barrier -/

/-- **A checkpoint of the asynchronous writer is a durable barrier.**  In every state of a session
with fewer than `2 ^ 64` accepted submissions: a checkpoint that returned `Ok` covers every
submission accepted before it read the sequence; the durable sequence is at most the processed
one, says how many submissions are covered and never decreases; behind the failure of a call it
does not change, and from the worker's report of the failure on every call returns the status of
that one failed call. -/
theorem async_barrier {z : AsyncSession} (hz : AsyncReach z)
    (hfew : (submissions z.log).length < 2 ^ 64) :
    (∀ before status, .synced before status ∈ z.log → status.isOk = true →
      Covered z.log before) ∧
    z.writer.metrics.durableSequence ≤ z.writer.processedSequence ∧
    Covered z.log z.writer.metrics.durableSequence.toNat ∧
    (∀ z', AsyncSteps z z' → (submissions z'.log).length < 2 ^ 64 →
      z.writer.metrics.durableSequence ≤ z'.writer.metrics.durableSequence) ∧
    (∀ op status, .returned op status ∈ z.log → status.isOk = false →
      ∀ z', AsyncSteps z z' →
        z'.writer.metrics.durableSequence = z.writer.metrics.durableSequence) ∧
    (z.writer.backgroundStatus.isOk = false →
      failures z.log = [z.writer.backgroundStatus] ∧
      (∀ status, .stopped status ∈ z.log → status = z.writer.backgroundStatus) ∧
      ∀ z', AsyncSteps z z' → Reports z.writer.backgroundStatus z') := by
  obtain ⟨n, k, hf⟩ := hz.fifo
  have hb := hz.barriers
  have hk := hf.durable_le
  have hn := hf.durable_count
  refine ⟨fun before status hm hok => hb.synced before status hm hok hfew, ?_, ?_, ?_, ?_, ?_⟩
  · rw [hf.durable, hf.processed, ofNat_le_ofNat (by omega) (by omega)]
    exact hk
  · rw [hf.durable, UInt64.toNat_ofNat', Nat.mod_eq_of_lt (by omega)]
    exact hf.covered
  · intro z' hs hfew'
    obtain ⟨n', k', hkk, hf'⟩ := hs.fifo hf
    have hk' := hf'.durable_le
    have hn' := hf'.durable_count
    rw [hf.durable, hf'.durable, ofNat_le_ofNat (by omega) (by omega)]
    exact hkk
  · intro op status hm hst z' hs
    exact hs.durable_failed hz (List.ne_nil_of_mem (mem_failures hm hst))
  · intro hbg
    refine ⟨?_, fun status hm => (hf.stopped status hm).2, fun z' hs => ?_⟩
    · rw [hb.failures, if_neg (by simp [hbg])]
    · obtain ⟨hst, hend, hrun⟩ := hs.reported hz hbg
      have := Reports.of_failed hend hrun (by rw [hst]; exact hbg)
      rwa [hst] at this

section
variable {s now : UInt64} {z : AsyncSession}

/-- The timer asks for a checkpoint. -/
theorem Resting.due (h : Resting s now z) {later : UInt64}
    (hdue : intervalElapsed now later 1000000000 = true) :
    z.writer.takeTurn now later later = ({ doCheckpoint := true }, z.writer) := by
  have hinterval : z.writer.intervalNs = 1000000000 := by
    rw [AsyncWriter.intervalNs, h.options]
    rfl
  unfold AsyncWriter.takeTurn
  rw [h.queue, hinterval, hdue, h.stopping]
  simp

/-- The report of that checkpoint. -/
theorem Resting.done (h : Resting s now z) (later : UInt64) {turn : Turn}
    (hturn : turn = { doCheckpoint := true }) (log : List AsyncEvent) :
    Resting s later { z with
      writer := (z.writer.finishTurn turn {} later).1
      worker := if (z.writer.finishTurn turn {} later).2 then
        .waiting (if turn.doCheckpoint then later else now) else .ended
      log := log } ∧
    (z.writer.finishTurn turn {} later).1.metrics.durableSequence = s ∧
    (z.writer.finishTurn turn {} later).1.completedBarrier = s := by
  subst hturn
  obtain ⟨⟨hopt, hq, hb, hst, hsub, hbg⟩, hproc, hcompl, hdur, hrun, hgo⟩ :=
    @finishTurn_ok { doCheckpoint := true } {} later z.writer rfl
  have hreq := @finishTurn_requested { doCheckpoint := true } later z.writer h.requested
  generalize AsyncWriter.finishTurn _ _ _ _ = p at *
  rw [hgo]
  replace hproc := hproc.trans h.processed
  refine ⟨⟨rfl, hopt.trans h.options, hq.trans h.queue, hb.trans h.bytes, ?_,
    hst.trans h.stopping, hreq, hsub.trans h.submitted, hproc, hbg.trans h.status⟩,
    hdur.trans hproc, hcompl.trans hproc⟩
  rw [hrun, h.running]
  rfl

/-- A checkpoint that the timer asks for. -/
theorem Resting.checkpoint (h : Resting s now z) {later : UInt64}
    (hdue : intervalElapsed now later 1000000000 = true) : ∃ z', AsyncSteps z z' ∧
    Resting s later z' ∧ z'.log = z.log ++ [.called .checkpoint, .returned .checkpoint {}] ∧
    z'.writer.metrics.durableSequence = s ∧ z'.writer.completedBarrier = s := by
  have h1 := (AsyncSteps.refl z).step (.wake z later later h.worker)
  rw [h.due hdue] at h1
  have h2 := h1.trans (AsyncSteps.turn later rfl rfl)
  obtain ⟨hrest, hdur, hcompl⟩ := h.done later rfl
    (z.log ++ [.called .checkpoint, .returned .checkpoint {}])
  exact ⟨_, h2, hrest, rfl, hdur, hcompl⟩

/-- A checkpoint that a client asks for, behind one that covers every record. -/
theorem Resting.synced (h : Resting s now z) (hbar : z.writer.completedBarrier = s) :
    ∃ z', AsyncSteps z z' ∧ z'.log = z.log ++ [.synced (submissions z.log).length {}] := by
  have hreq : z.writer.requestCheckpoint = .ok { z.writer with
      requestedBarrier := max z.writer.requestedBarrier z.writer.submittedSequence
      checkpointRequested := true } := by
    unfold AsyncWriter.requestCheckpoint
    rw [if_neg (by rw [h.status]; decide), if_neg (by simp [h.running])]
  have h₁ := (AsyncSteps.refl z).step (.checkpoint z hreq)
  have hwait : AsyncWriter.awaitBarrier z.writer.submittedSequence { z.writer with
      requestedBarrier := max z.writer.requestedBarrier z.writer.submittedSequence
      checkpointRequested := true } = some {} := by
    unfold AsyncWriter.awaitBarrier
    rw [if_pos (.inl (by rw [hbar, h.submitted]; exact UInt64.le_refl _)),
      if_neg (by rw [h.status]; decide),
      if_neg (by rw [hbar, h.submitted]; exact UInt64.lt_irrefl _)]
  exact ⟨_, h₁.step (.checkpointReturn _ rfl hwait), rfl⟩

/-- A record whose append failed, before the report of the failure. -/
theorem Resting.fail (h : Resting s now z) : ∃ z', AsyncSteps z z' ∧
    .returned (.append [7] 1 0) ⟨.ioError, "write failed"⟩ ∈ z'.log ∧
    (z'.writer.submitImpl [7] 1 0 none now).1.isOk = true := by
  obtain ⟨w, h1, hsame, hq, hb, hstop, -, -⟩ := h.take 7
  have h2 := h1.step (.workerCall _ rfl rfl)
  have h3 := h2.step (.workerReturn _ ⟨.ioError, "write failed"⟩ rfl rfl)
  refine ⟨_, h3, List.mem_append_right _ (List.mem_singleton_self _), ?_⟩
  exact (submitImpl_accepts 7 (hsame.status.trans h.status) (hsame.running.trans h.running) hstop
    (hsame.options.trans h.options) hq hb now).1

/-- Any number of records, one after the other. -/
theorem Resting.appends (n : Nat) : ∃ z, AsyncReach z ∧ Resting (.ofNat n) 0 z := by
  have hstart : AsyncWriter.start {} {} = .ok { running := true } := rfl
  induction n with
  | zero => exact ⟨_, .start 0 hstart, .start 0 hstart⟩
  | succ n ih =>
    obtain ⟨z, hz, hrest⟩ := ih
    obtain ⟨z', hs, hrest', -⟩ := hrest.append 7
    rw [UInt64.ofNat_add]
    exact ⟨z', hz.steps hs, hrest'⟩

end

/-- A checkpoint of a client covers the two records before it. -/
theorem checkpointed_record_durable : ∃ z, AsyncReach z ∧ .synced 2 {} ∈ z.log ∧
    submissions z.log = [⟨[7], 1, 0, none⟩, ⟨[8], 1, 0, none⟩] ∧ Covered z.log 2 := by
  have hstart : AsyncWriter.start {} {} = .ok { running := true } := rfl
  obtain ⟨z₁, h₁, hrest₁, hlog₁, -⟩ := (Resting.start 0 hstart).append 7
  obtain ⟨z₂, h₂, hrest₂, hlog₂, -⟩ := hrest₁.append 8
  have hdue : intervalElapsed 0 1000000000 1000000000 = true := by decide
  obtain ⟨z₃, h₃, hrest₃, hlog₃, -, hbar⟩ := hrest₂.checkpoint hdue
  obtain ⟨z₄, h₄, hlog₄⟩ := hrest₃.synced hbar
  rw [hlog₂, hlog₁] at hlog₃
  have hbefore : submissions z₃.log = [⟨[7], 1, 0, none⟩, ⟨[8], 1, 0, none⟩] := by rw [hlog₃]; rfl
  have hsub : submissions z₄.log = [⟨[7], 1, 0, none⟩, ⟨[8], 1, 0, none⟩] := by
    rw [hlog₄, submissions_append, hbefore]
    rfl
  have hmem : AsyncEvent.synced 2 {} ∈ z₄.log := by
    rw [hlog₄, hbefore]
    exact List.mem_append_right _ (List.mem_singleton_self _)
  have hz := ((((AsyncReach.start 0 hstart).steps h₁).steps h₂).steps h₃).steps h₄
  have hfew : (submissions z₄.log).length < 2 ^ 64 := by
    rw [hsub]
    decide
  exact ⟨z₄, hz, hmem, hsub, (async_barrier hz hfew).1 2 {} hmem rfl⟩

/-- **Where the barrier ends**: a submission is accepted behind a failed append that is not
reported yet, and behind `2 ^ 64` submissions the durable sequence has decreased. -/
theorem async_barrier_limits :
    (∃ z op status, AsyncReach z ∧ .returned op status ∈ z.log ∧ status.isOk = false ∧
      (z.writer.submitImpl [7] 1 0 none 0).1.isOk = true) ∧
    ∃ z z', AsyncReach z ∧ AsyncSteps z z' ∧
      z'.writer.metrics.durableSequence < z.writer.metrics.durableSequence := by
  constructor
  · obtain ⟨z, hz, hrest⟩ := Resting.appends 0
    obtain ⟨z', hs, hmem, hok⟩ := hrest.fail
    exact ⟨z', _, _, hz.steps hs, hmem, rfl, hok⟩
  · obtain ⟨z, hz, hrest⟩ := Resting.appends (2 ^ 64 - 1)
    have hdue : intervalElapsed 0 1000000000 1000000000 = true := by decide
    obtain ⟨z₁, h₁, hrest₁, -, hdur₁, -⟩ := hrest.checkpoint hdue
    obtain ⟨z₂, h₂, hrest₂, -⟩ := hrest₁.append 7
    have hdue' : intervalElapsed 1000000000 2000000000 1000000000 = true := by decide
    obtain ⟨z₃, h₃, -, -, hdur₃, -⟩ := hrest₂.checkpoint hdue'
    refine ⟨z₁, z₃, hz.steps h₁, h₂.trans h₃, ?_⟩
    rw [hdur₁, hdur₃]
    decide

end TFDB
