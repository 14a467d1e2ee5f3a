import TFDB.Status
import TFDB.Lib.Torn

/-!
# Exact transfers

`read_exact` and `write_exact` call the backend until the whole range has been transferred.  The
backend answers with a schedule of responses: short transfers, interruptions, no progress, errors,
and lengths longer than what it was given.

* `exactLoop` — the loop of both functions, over any state a transfer changes;
* `exactLoop_invariant` — what every transfer keeps holds where the loop stops;
* `exact_transfers` — the whole range on success, a prefix of it otherwise;
* `issue_transfers` — a power cut finds the transfers of a call as it finds one pending write.
-/

set_option autoImplicit false

namespace TFDB

open ByteLib

/-! ## The backend -/

/-- `IoResult`, the answer of `read_at` and `write_at`. -/
structure IoResult where
  transferred : Nat := 0
  status : Status := {}

/-- An answer, and what a backend that reports more than it was given did transfer. -/
structure Response extends IoResult where
  overrun : Nat := 0

/-- How many of `given` bytes were transferred: those the answer reports, and at most the bytes
given when it reports more. -/
def Response.moved (r : Response) (given : Nat) : Nat :=
  if r.transferred ≤ given then r.transferred else min r.overrun given

theorem Response.moved_le (r : Response) (given : Nat) : r.moved given ≤ given := by
  unfold moved
  split
  · assumption
  · exact Nat.min_le_right _ _

theorem Response.moved_eq {r : Response} {given : Nat} (h : r.transferred ≤ given) :
    r.moved given = r.transferred := if_pos h

/-- The contents of a storage, by 64-bit offset. -/
abbrev Contents := UInt64 → UInt8

namespace Contents

/-- The contents with `bytes` from `offset` on. -/
def overwrite (m : Contents) (offset : UInt64) (bytes : Bytes) : Contents := fun a =>
  if (a - offset).toNat < bytes.length then bytes.getD (a - offset).toNat 0 else m a

/-- The `n` bytes from `offset` on. -/
def range (m : Contents) (offset : UInt64) (n : Nat) : Bytes :=
  (List.range n).map fun i => m (offset + UInt64.ofNat i)

@[simp] theorem range_length (m : Contents) (offset : UInt64) (n : Nat) :
    (m.range offset n).length = n := by
  simp [range]

@[simp] theorem overwrite_nil (m : Contents) (offset : UInt64) : m.overwrite offset [] = m := by
  funext a
  simp [overwrite]

theorem range_add (m : Contents) (offset : UInt64) (d k : Nat) :
    m.range offset (d + k) = m.range offset d ++ m.range (offset + UInt64.ofNat d) k := by
  have hshift (i : Nat) : offset + UInt64.ofNat (d + i) = offset + UInt64.ofNat d + UInt64.ofNat i := by
    rw [UInt64.ofNat_add, UInt64.add_assoc]
  simp only [range, List.range_add, List.map_append, List.map_map, Function.comp_def, hshift]

/-- The distance from a later offset. -/
theorem toNat_sub_add {a offset : UInt64} {d : Nat} (hd : d < 2 ^ 64) :
    (a - (offset + UInt64.ofNat d)).toNat =
      if d ≤ (a - offset).toNat then (a - offset).toNat - d else 2 ^ 64 + (a - offset).toNat - d := by
  have hlt := (a - offset).toNat_lt
  have hsub : a - (offset + UInt64.ofNat d) = (a - offset) - UInt64.ofNat d := by
    rw [UInt64.sub_eq_add_neg, UInt64.sub_eq_add_neg, UInt64.sub_eq_add_neg, UInt64.neg_add,
      UInt64.sub_eq_add_neg, UInt64.add_assoc]
  rw [hsub, UInt64.toNat_sub, UInt64.toNat_ofNat_of_lt' hd]
  split
  · omega
  · omega

/-- Resuming where the last transfer stopped continues it. -/
theorem overwrite_resume (m : Contents) (offset : UInt64) {bytes : Bytes} {d k : Nat}
    (hk : d + k ≤ bytes.length) (hn : bytes.length < 2 ^ 64) :
    (m.overwrite offset (bytes.take d)).overwrite (offset + UInt64.ofNat d) ((bytes.drop d).take k) =
      m.overwrite offset (bytes.take (d + k)) := by
  funext a
  have hx := (a - offset).toNat_lt
  simp only [overwrite, toNat_sub_add (show d < 2 ^ 64 by omega), List.length_take,
    List.length_drop, List.getD_eq_getElem?_getD]
  generalize (a - offset).toNat = x at hx ⊢
  by_cases hd : d ≤ x
  · rw [if_pos hd, if_neg (show ¬ x < min d bytes.length by omega)]
    by_cases hxk : x < d + k
    · rw [if_pos (by omega), if_pos (by omega), List.getElem?_take_of_lt (by omega),
        List.getElem?_drop, List.getElem?_take_of_lt hxk, Nat.add_sub_cancel' hd]
    · rw [if_neg (by omega), if_neg (by omega)]
  · rw [if_neg hd, if_neg (by omega), if_pos (by omega), if_pos (by omega),
      List.getElem?_take_of_lt (by omega), List.getElem?_take_of_lt (by omega)]

end Contents

/-! ## The loop -/

/-- The loop of `read_exact` and `write_exact` over the backend's answers.  `transfer s done k` is
the state after `k` bytes have been transferred at position `done`.  The result is `none` while the
call has not returned. -/
def exactLoop {σ : Type} (transfer : σ → Nat → Nat → σ) (noProgress overReported : String)
    (n : Nat) : List Response → Nat → σ → Option Status × σ
  | [], done, s => if done < n then (none, s) else (some {}, s)
  | r :: rest, done, s =>
    if done < n then
      let s' := transfer s done (r.moved (n - done))
      if r.status.isOk then
        if r.transferred = 0 then (some ⟨.ioError, noProgress⟩, s')
        else if n - done < r.transferred then (some ⟨.internalError, overReported⟩, s')
        else exactLoop transfer noProgress overReported n rest (done + r.transferred) s'
      else if r.status.code = .interrupted ∧ r.transferred = 0 then
        exactLoop transfer noProgress overReported n rest done s'
      else (some r.status, s')
    else (some {}, s)

/-- `write_exact`; the input of a null view with a length is `none`. -/
def writeExact (m : Contents) (offset : UInt64) (input : Option Bytes) (schedule : List Response) :
    Option Status × Contents :=
  match input with
  | none => (some ⟨.invalidArgument, "null non-empty exact-write buffer"⟩, m)
  | some bytes =>
    exactLoop
      (fun m done k => m.overwrite (offset + UInt64.ofNat done) ((bytes.drop done).take k))
      "write made no progress" "backend over-reported write length" bytes.length schedule 0 m

/-- `read_exact` into a buffer with the contents given. -/
def readExact (m : Contents) (offset : UInt64) (output : Option Bytes) (schedule : List Response) :
    Option Status × Bytes :=
  match output with
  | none => (some ⟨.invalidArgument, "null non-empty exact-read buffer"⟩, [])
  | some buffer =>
    exactLoop
      (fun b done k => b.take done ++ m.range (offset + UInt64.ofNat done) k ++ b.drop (done + k))
      "read made no progress before requested length" "backend over-reported read length"
      buffer.length schedule 0 buffer

/-- What a call may conclude from the answers to it. -/
structure ReportsExactly (n : Nat) (call : List Response → Option Status) : Prop where
  /-- Success without progress ends the call with an error. -/
  noProgress : ∀ before r after, call before = none → r.status.isOk → r.transferred = 0 →
    ∃ e, call (before ++ r :: after) = some e ∧ e.isOk = false
  /-- So does an answer that reports more than was left to transfer. -/
  overReport : ∀ before r after, call before = none →
    n - (before.map fun q => q.transferred).sum < r.transferred →
    ∃ e, call (before ++ r :: after) = some e ∧ e.isOk = false
  /-- An interruption that transferred nothing changes nothing. -/
  interrupted : ∀ before r after, r.status.code = .interrupted → r.transferred = 0 →
    call (before ++ r :: after) = call (before ++ after)
  /-- A reported interruption transferred something. -/
  reported : ∀ schedule e, call schedule = some e → e.code = .interrupted →
    ∃ r ∈ schedule, r.status = e ∧ r.transferred ≠ 0

section
variable {σ : Type} {transfer : σ → Nat → Nat → σ} {noProgress overReported : String} {n : Nat}

/-- A loop over nothing left returns. -/
theorem exactLoop_done {schedule : List Response} {d : Nat} {s : σ} (h : n ≤ d) :
    exactLoop transfer noProgress overReported n schedule d s = (some {}, s) := by
  cases schedule with
  | nil => exact if_neg (by omega)
  | cons r rest => exact if_neg (by omega)

/-- What one answer does: it ends the call with an error, or it is a part of what was left, possibly
none of it, and the call goes on behind that part. -/
theorem exactLoop_cons {d : Nat} (hd : d < n) (r : Response) :
    (∃ e : Status, e.isOk = false ∧ (e.code = .interrupted → r.status = e ∧ r.transferred ≠ 0) ∧
      ∀ (rest : List Response) (s : σ),
        exactLoop transfer noProgress overReported n (r :: rest) d s =
          (some e, transfer s d (r.moved (n - d)))) ∨
    (r.transferred ≤ n - d ∧ ∀ (rest : List Response) (s : σ),
      exactLoop transfer noProgress overReported n (r :: rest) d s =
        exactLoop transfer noProgress overReported n rest (d + r.transferred)
          (transfer s d r.transferred)) := by
  by_cases hok : r.status.isOk = true
  · by_cases hzero : r.transferred = 0
    · left
      refine ⟨⟨.ioError, noProgress⟩, rfl, fun h => (by cases h), fun rest s => ?_⟩
      rw [exactLoop, if_pos hd]
      simp only [hok, hzero, if_true]
    · by_cases hover : n - d < r.transferred
      · left
        refine ⟨⟨.internalError, overReported⟩, rfl, fun h => (by cases h), fun rest s => ?_⟩
        rw [exactLoop, if_pos hd]
        simp only [hok, hzero, hover, if_true, if_false]
      · right
        have hle : r.transferred ≤ n - d := by omega
        refine ⟨hle, fun rest s => ?_⟩
        rw [exactLoop, if_pos hd]
        simp only [hok, hzero, hover, if_true, if_false, Response.moved_eq hle]
  · by_cases hint : r.status.code = .interrupted ∧ r.transferred = 0
    · right
      have hle : r.transferred ≤ n - d := by omega
      refine ⟨hle, fun rest s => ?_⟩
      rw [exactLoop, if_pos hd]
      dsimp only
      rw [if_neg hok, if_pos hint, Response.moved_eq hle, hint.2, Nat.add_zero]
    · left
      refine ⟨r.status, Bool.eq_false_iff.mpr hok, fun h => ⟨rfl, fun hz => hint ⟨h, hz⟩⟩,
        fun rest s => ?_⟩
      rw [exactLoop, if_pos hd]
      dsimp only
      rw [if_neg hok, if_neg hint]

/-- The invariant rule: what every transfer keeps holds where the loop stops, and at the end of the
range when it succeeds. -/
theorem exactLoop_invariant (Inv : Nat → σ → Prop)
    (hstep : ∀ d k s, d + k ≤ n → Inv d s → Inv (d + k) (transfer s d k)) :
    ∀ (schedule : List Response) (d : Nat) (s : σ), d ≤ n → Inv d s →
      ∃ d' ≤ n, Inv d' (exactLoop transfer noProgress overReported n schedule d s).2 ∧
        ∀ e, (exactLoop transfer noProgress overReported n schedule d s).1 = some e →
          e.isOk = true → d' = n := by
  intro schedule
  induction schedule with
  | nil =>
    intro d s hd hs
    refine ⟨d, hd, ?_⟩
    rw [exactLoop]
    split
    · exact ⟨hs, fun e he => (by cases he)⟩
    · exact ⟨hs, fun _ _ _ => by omega⟩
  | cons r rest ih =>
    intro d s hd hs
    by_cases hlt : d < n
    · rcases exactLoop_cons hlt r with ⟨e, he, -, hend⟩ | ⟨hle, hgo⟩
      · have hmoved := r.moved_le (n - d)
        rw [hend]
        refine ⟨d + r.moved (n - d), by omega, hstep _ _ _ (by omega) hs, ?_⟩
        intro e' heq hok
        cases heq
        rw [he] at hok
        cases hok
      · rw [hgo]
        exact ih _ _ (by omega) (hstep _ _ _ (by omega) hs)
    · rw [exactLoop_done (by omega)]
      exact ⟨d, hd, hs, fun _ _ _ => by omega⟩

/-- A call that has returned has not seen the answers that follow. -/
theorem exactLoop_returned (after : List Response) {e : Status} :
    ∀ (before : List Response) (d : Nat) (s : σ),
      (exactLoop transfer noProgress overReported n before d s).1 = some e →
      exactLoop transfer noProgress overReported n (before ++ after) d s =
        exactLoop transfer noProgress overReported n before d s := by
  intro before
  induction before with
  | nil =>
    intro d s h
    by_cases hd : d < n
    · rw [exactLoop, if_pos hd] at h
      cases h
    · rw [exactLoop_done (by omega), exactLoop_done (by omega)]
  | cons r rest ih =>
    intro d s h
    rw [List.cons_append]
    by_cases hlt : d < n
    · rcases exactLoop_cons hlt r with ⟨e', -, -, hend⟩ | ⟨-, hgo⟩
      · rw [hend, hend]
      · rw [hgo] at h
        rw [hgo, hgo, ih _ _ h]
    · rw [exactLoop_done (by omega), exactLoop_done (by omega)]

/-- A call that still runs has something left, and goes on with the answers that follow. -/
theorem exactLoop_running (after : List Response) :
    ∀ (before : List Response) (d : Nat) (s : σ),
      (exactLoop transfer noProgress overReported n before d s).1 = none →
      d + (before.map fun q => q.transferred).sum < n ∧
      exactLoop transfer noProgress overReported n (before ++ after) d s =
        exactLoop transfer noProgress overReported n after
          (d + (before.map fun q => q.transferred).sum)
          (exactLoop transfer noProgress overReported n before d s).2 := by
  intro before
  induction before with
  | nil =>
    intro d s h
    by_cases hd : d < n
    · refine ⟨by simpa using hd, ?_⟩
      simp [exactLoop, hd]
    · rw [exactLoop_done (by omega)] at h
      cases h
  | cons r rest ih =>
    intro d s h
    by_cases hlt : d < n
    · rcases exactLoop_cons hlt r with ⟨e, -, -, hend⟩ | ⟨-, hgo⟩
      · rw [hend] at h
        cases h
      · rw [hgo] at h
        rw [List.cons_append, hgo, hgo, List.map_cons, List.sum_cons, ← Nat.add_assoc]
        exact ih _ _ h
    · rw [exactLoop_done (by omega)] at h
      cases h

/-- A reported interruption is an answer that transferred something. -/
theorem exactLoop_interrupted {e : Status} (hcode : e.code = .interrupted) :
    ∀ (schedule : List Response) (d : Nat) (s : σ),
      (exactLoop transfer noProgress overReported n schedule d s).1 = some e →
      ∃ r ∈ schedule, r.status = e ∧ r.transferred ≠ 0 := by
  intro schedule
  induction schedule with
  | nil =>
    intro d s h
    rw [exactLoop] at h
    split at h
    · cases h
    · cases h
      cases hcode
  | cons r rest ih =>
    intro d s h
    by_cases hlt : d < n
    · rcases exactLoop_cons hlt r with ⟨e', -, hreport, hend⟩ | ⟨-, hgo⟩
      · rw [hend] at h
        cases h
        exact ⟨r, List.mem_cons_self .., hreport hcode⟩
      · rw [hgo] at h
        obtain ⟨q, hq, hst⟩ := ih _ _ h
        exact ⟨q, List.mem_cons_of_mem _ hq, hst⟩
    · rw [exactLoop_done (by omega)] at h
      cases h
      cases hcode

/-- The answers are read the same way by both functions. -/
theorem exactLoop_reports (hnone : ∀ s d, transfer s d 0 = s) (s : σ) :
    ReportsExactly n fun schedule =>
      (exactLoop transfer noProgress overReported n schedule 0 s).1 where
  noProgress := by
    intro before r after hrun hok hzero
    obtain ⟨hlt, hgo⟩ := exactLoop_running (r :: after) before 0 s hrun
    refine ⟨⟨.ioError, noProgress⟩, ?_, rfl⟩
    rw [hgo, exactLoop, if_pos hlt]
    simp [hok, hzero]
  overReport := by
    intro before r after hrun hover
    obtain ⟨hlt, hgo⟩ := exactLoop_running (r :: after) before 0 s hrun
    rw [Nat.zero_add] at hlt hgo
    rw [hgo, exactLoop, if_pos hlt]
    dsimp only
    have hpos : r.transferred ≠ 0 := by omega
    by_cases hok : r.status.isOk = true
    · refine ⟨⟨.internalError, overReported⟩, ?_, rfl⟩
      rw [if_pos hok, if_neg hpos, if_pos hover]
    · refine ⟨r.status, ?_, Bool.eq_false_iff.mpr hok⟩
      rw [if_neg hok, if_neg fun h => hpos h.2]
  interrupted := by
    intro before r after hcode hzero
    cases hb : (exactLoop transfer noProgress overReported n before 0 s).1 with
    | some e => rw [exactLoop_returned _ before 0 s hb, exactLoop_returned _ before 0 s hb]
    | none =>
      obtain ⟨hlt, hgo⟩ := exactLoop_running (r :: after) before 0 s hb
      have hmoved (given : Nat) : r.moved given = 0 := by
        rw [Response.moved_eq (by omega), hzero]
      have hok : r.status.isOk = false := by
        simp [Status.isOk, hcode]
      rw [hgo, (exactLoop_running after before 0 s hb).2, exactLoop, if_pos hlt]
      simp [hok, hcode, hzero, hmoved, hnone]
  reported := by
    intro schedule e he hcode
    exact exactLoop_interrupted hcode schedule 0 s he

end

/-! ## Exact transfers -/

/-- Whatever `write_exact` returns, a prefix of its input has been written; all of it on success. -/
theorem writeExact_prefix {bytes : Bytes} (hn : bytes.length < 2 ^ 64) (m : Contents)
    (offset : UInt64) (schedule : List Response) :
    ∃ k ≤ bytes.length, (writeExact m offset (some bytes) schedule).2 =
        m.overwrite offset (bytes.take k) ∧
      ∀ e, (writeExact m offset (some bytes) schedule).1 = some e → e.isOk = true →
        k = bytes.length := by
  refine exactLoop_invariant (fun d m' => m' = m.overwrite offset (bytes.take d)) ?_ schedule 0 m
    (Nat.zero_le _) (by simp)
  intro d k m' hk hm'
  rw [hm', Contents.overwrite_resume m offset hk hn]

/-- The part of the buffer that `read_exact` has filled. -/
theorem readExact_prefix (m : Contents) (offset : UInt64) (buffer : Bytes)
    (schedule : List Response) :
    ∃ k ≤ buffer.length, (readExact m offset (some buffer) schedule).2 =
        m.range offset k ++ buffer.drop k ∧
      ∀ e, (readExact m offset (some buffer) schedule).1 = some e → e.isOk = true →
        k = buffer.length := by
  refine exactLoop_invariant (fun d b => b = m.range offset d ++ buffer.drop d) ?_ schedule 0 buffer
    (Nat.zero_le _) (by simp [Contents.range])
  intro d k b hk hb
  have hlen : (m.range offset d).length = d := m.range_length offset d
  rw [hb, List.take_append_of_le_length (by omega), List.take_of_length_le (by omega),
    List.drop_append, hlen, List.drop_of_length_le (by omega), List.nil_append, List.drop_drop,
    Nat.add_sub_cancel_left, Contents.range_add]

/-- **Exact transfers under any schedule of answers.**  If `write_exact` succeeds, the storage holds
the input at exactly the range and its old contents elsewhere, and if `read_exact` succeeds the
buffer holds the bytes of the range; whatever `write_exact` returns, only a prefix of the range has
changed, to the prefix of the input; and neither takes an answer for more than it is. -/
theorem exact_transfers {input : Bytes} (hn : input.length < 2 ^ 64) (m : Contents)
    (offset : UInt64) (output : Bytes) (schedule : List Response) :
    (∀ e, (writeExact m offset (some input) schedule).1 = some e → e.isOk = true →
      (writeExact m offset (some input) schedule).2 = m.overwrite offset input) ∧
    (∀ e, (readExact m offset (some output) schedule).1 = some e → e.isOk = true →
      (readExact m offset (some output) schedule).2 = m.range offset output.length) ∧
    (∃ k ≤ input.length, (writeExact m offset (some input) schedule).2 =
      m.overwrite offset (input.take k)) ∧
    ReportsExactly input.length (fun answers => (writeExact m offset (some input) answers).1) ∧
    ReportsExactly output.length (fun answers => (readExact m offset (some output) answers).1) := by
  obtain ⟨k, hk, hwrite, hall⟩ := writeExact_prefix hn m offset schedule
  obtain ⟨j, -, hread, hfull⟩ := readExact_prefix m offset output schedule
  refine ⟨?_, ?_, ⟨k, hk, hwrite⟩, ?_, ?_⟩
  · intro e he hok
    rw [hwrite, hall e he hok, List.take_length]
  · intro e he hok
    rw [hread, hfull e he hok, List.drop_length, List.append_nil]
  · exact exactLoop_reports (fun m' d => by simp) m
  · exact exactLoop_reports (fun b d => by simp [Contents.range]) output

/-! ## Transfers and power cuts -/

/-- The transfers of `write_exact`, each with its offset. -/
def writeTransfers (offset : Nat) (bytes : Bytes) (schedule : List Response) :
    Option Status × List (Nat × Bytes) :=
  exactLoop (fun ts done k => ts ++ [(offset + done, (bytes.drop done).take k)])
    "write made no progress" "backend over-reported write length" bytes.length schedule 0 []

/-- **One pending write stands for all transfers of a call.**  Whatever the answers of the backend,
the images a power cut may leave of them are those it may leave of one write of a prefix of the item,
and of the whole item if the call succeeds. -/
theorem issue_transfers {ι : Type} (enc : ι → Bytes) (d : Disk ι) (off : Nat) (i : ι)
    (schedule : List Response) :
    ∃ n ≤ (enc i).length, (∀ m, (d.issue off i n).MixCut enc m ↔
        Mixes d.durable (d.pending.map (fun w => (w.off, w.bytes enc)) ++
          (writeTransfers off (enc i) schedule).2) m) ∧
      ∀ e, (writeTransfers off (enc i) schedule).1 = some e → e.isOk = true →
        n = (enc i).length := by
  have hstep : ∀ d k ts, d + k ≤ (enc i).length → Transfers off ((enc i).take d) ts →
      Transfers off ((enc i).take (d + k)) (ts ++ [(off + d, ((enc i).drop d).take k)]) := by
    intro d k ts hk h
    have hlen : ((enc i).take d).length = d := by
      rw [List.length_take, Nat.min_eq_left (by omega)]
    rw [List.take_add, ← hlen]
    simpa only [hlen] using h.snoc
  obtain ⟨n, hn, htransfers, hall⟩ := exactLoop_invariant _ hstep schedule 0 []
    (Nat.zero_le _) (Transfers.nil off)
  refine ⟨n, hn, fun m => ?_, hall⟩
  rw [Disk.mixCut_iff, Disk.issue_pending, Disk.issue_durable, List.map_append, List.map_singleton]
  exact (mixes_transfers htransfers _ _ m).symm

/-- A write of three bytes, interrupted once and then cut short, is completed. -/
theorem resumed_write : (writeExact (fun _ => 0) 5 (some [1, 2, 3])
    [{ status := ⟨.interrupted, "pwrite"⟩ }, { transferred := 2 }, { transferred := 1 }]).2 =
      Contents.overwrite (fun _ => 0) 5 [1, 2, 3] := by
  obtain ⟨hwrite, -⟩ := @exact_transfers [1, 2, 3] (by decide) (fun _ => 0) 5 []
    [{ status := ⟨.interrupted, "pwrite"⟩ }, { transferred := 2 }, { transferred := 1 }]
  exact hwrite {} rfl rfl

end TFDB
