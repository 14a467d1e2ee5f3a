import TFDB.Maintain

/-!
# What the metadata of a block says

The time range, the flags and the record count of a block are accumulated while its records are
accepted, and those of a partition while its blocks are written.  A `Journal` is kept by an observer
who sees which records a store accepted, which partitions it turned to, and which blocks and footers
it wrote.

* `Journal.Previous`, `Jumps`, `Anomalous` — the record a new one is compared with, and what is
  anomalous, over the integers;
* `Describes`, `Totals` — what the metadata of a block and of a partition have to say;
* `Totals.snoc`, `FlagsOf.record`, `Spans.snoc` — one more block, one more record.
-/

set_option autoImplicit false

namespace TFDB

open ByteLib Writer

/-! ## Journals -/

/-- Something an observer of a store sees. -/
inductive Happening
  /-- The store turns to a partition in this state. -/
  | partition (p : PartitionState)
  /-- The append of this record returned `Ok`. -/
  | record (r : AcceptedRecord)
  | block (off : Nat) (b : BlockHeader) (raw : Bytes)
  | footer (f : PartitionFooter)

abbrev Journal := List Happening

/-- The part of the metadata of a block that its partition sums up. -/
structure Extent where
  flags : UInt32
  minTimeNs : Int64
  maxTimeNs : Int64

def IndexEntry.extent (e : IndexEntry) : Extent := ⟨e.flags, e.minTimeNs, e.maxTimeNs⟩
def BlockHeader.extent (b : BlockHeader) : Extent := ⟨b.flags, b.minTimeNs, b.maxTimeNs⟩

namespace Happening

def isRecord : Happening → Bool
  | record _ => true
  | _ => false

def isBlock : Happening → Bool
  | block .. => true
  | _ => false

/-- The partition this is about. -/
def generation : Happening → Option UInt64
  | partition p => some p.header.generation
  | block _ b _ => some b.generation
  | _ => none

/-- The blocks of a partition that come with this: those found in it, or the one written. -/
def extents (generation : UInt64) : Happening → List Extent
  | partition p =>
    if p.header.generation = generation ∧ p.isSealed = false then p.activeIndex.map IndexEntry.extent
    else []
  | block _ b _ => if b.generation = generation then [b.extent] else []
  | _ => []

end Happening

namespace Journal

/-- The options of the partition the store has turned to last. -/
def options (J : Journal) : Option PartitionOptions :=
  J.foldl (fun o h => match h with
    | .partition p => some p.header.options
    | _ => o) none

/-- The records accepted since the last block. -/
def pending (J : Journal) : List AcceptedRecord :=
  J.foldl (fun rs h => match h with
    | .record r => rs ++ [r]
    | .block .. => []
    | _ => rs) []

/-- The blocks of a partition, in order. -/
def extents (J : Journal) (generation : UInt64) : List Extent :=
  J.flatMap (Happening.extents generation)

/-- The store has turned to the partition of this generation, which had no footer. -/
def Opened (J : Journal) (generation : UInt64) : Prop :=
  ∃ p, .partition p ∈ J ∧ p.header.generation = generation ∧ p.isSealed = false

/-- The store has turned to this partition, and to no other in its slot since. -/
def Retained (J : Journal) (p : PartitionState) : Prop :=
  ∃ A B : Journal, J = A ++ .partition p :: B ∧
    ∀ q, .partition q ∈ B → q.header.slot ≠ p.header.slot

/-- The record accepted last, if the store has not turned to another time domain since then. -/
def Previous (J : Journal) (q : AcceptedRecord) : Prop :=
  ∃ (A B : Journal) (o : PartitionOptions), J = A ++ .record q :: B ∧ A.options = some o ∧
    (∀ h ∈ B, h.isRecord = false) ∧
    ∀ p, .partition p ∈ B → p.header.options.timeDomainId = o.timeDomainId

/-- The record is pending, and the journal was `A` when it was accepted. -/
def PendingSince (J A : Journal) (r : AcceptedRecord) : Prop :=
  ∃ B : Journal, J = A ++ .record r :: B ∧ ∀ h ∈ B, h.isBlock = false

def wrote (J : Journal) (off : Nat) : Item → Journal
  | .frame b _ raw => J ++ [.block off b raw]
  | .header h => J ++ [.partition { header := h }]
  | .footer f _ => J ++ [.footer f]
  | _ => J

def note (J : Journal) (r : AcceptedRecord) : Journal := J ++ [.record r]

section
variable (J : Journal)

@[simp] theorem options_partition (p : PartitionState) :
    options (J ++ [.partition p]) = some p.header.options := by simp [options]

@[simp] theorem options_record (r : AcceptedRecord) :
    options (J ++ [.record r]) = J.options := by simp [options]

@[simp] theorem options_block (off : Nat) (b : BlockHeader) (raw : Bytes) :
    options (J ++ [.block off b raw]) = J.options := by simp [options]

@[simp] theorem options_footer (f : PartitionFooter) :
    options (J ++ [.footer f]) = J.options := by simp [options]

@[simp] theorem pending_partition (p : PartitionState) :
    pending (J ++ [.partition p]) = J.pending := by simp [pending]

@[simp] theorem pending_record (r : AcceptedRecord) :
    pending (J ++ [.record r]) = J.pending ++ [r] := by simp [pending]

@[simp] theorem pending_block (off : Nat) (b : BlockHeader) (raw : Bytes) :
    pending (J ++ [.block off b raw]) = [] := by simp [pending]

@[simp] theorem pending_footer (f : PartitionFooter) :
    pending (J ++ [.footer f]) = J.pending := by simp [pending]

theorem extents_snoc (h : Happening) (g : UInt64) :
    extents (J ++ [h]) g = J.extents g ++ h.extents g := by simp [extents]

@[simp] theorem extents_record (r : AcceptedRecord) (g : UInt64) :
    extents (J ++ [.record r]) g = J.extents g := by simp [extents, Happening.extents]

@[simp] theorem extents_footer (f : PartitionFooter) (g : UInt64) :
    extents (J ++ [.footer f]) g = J.extents g := by simp [extents, Happening.extents]

variable {J}

theorem Opened.snoc {g : UInt64} (h : J.Opened g) (x : Happening) : Opened (J ++ [x]) g := by
  obtain ⟨p, hp, hg, hs⟩ := h
  exact ⟨p, List.mem_append_left _ hp, hg, hs⟩

theorem opened_other {g : UInt64} {x : Happening} (hx : ∀ p, x ≠ .partition p) :
    Opened (J ++ [x]) g ↔ J.Opened g := by
  refine ⟨?_, fun h => h.snoc x⟩
  rintro ⟨p, hp, hg, hs⟩
  rcases List.mem_append.mp hp with hp | hp
  · exact ⟨p, hp, hg, hs⟩
  · exact absurd (List.mem_singleton.mp hp).symm (hx p)

/-- A list that ends in `h` and splits at `x` splits inside, or `x` is the end. -/
theorem snoc_split {A B : Journal} {h x : Happening} (e : J ++ [h] = A ++ x :: B) :
    (B = [] ∧ J = A ∧ h = x) ∨ ∃ C, B = C ++ [h] ∧ J = A ++ x :: C := by
  rcases List.eq_nil_or_concat B with rfl | ⟨C, y, rfl⟩
  · obtain ⟨h1, h2⟩ := List.append_inj' e rfl
    exact .inl ⟨rfl, h1, by simpa using h2⟩
  · have e' : J ++ [h] = (A ++ x :: C) ++ [y] := by simpa using e
    obtain ⟨h1, h2⟩ := List.append_inj' e' rfl
    obtain rfl : h = y := by simpa using h2
    exact .inr ⟨C, by simp, h1⟩

theorem Retained.of_other {p : PartitionState} {x : Happening} (hx : ∀ q, x ≠ .partition q)
    (h : Retained (J ++ [x]) p) : J.Retained p := by
  obtain ⟨A, B, he, hB⟩ := h
  rcases snoc_split he with ⟨-, -, hp⟩ | ⟨C, rfl, hJ⟩
  · exact absurd hp (hx p)
  · exact ⟨A, C, hJ, fun q hq => hB q (List.mem_append_left _ hq)⟩

theorem Retained.opened {p : PartitionState} (h : J.Retained p) (hs : p.isSealed = false) :
    J.Opened p.header.generation := by
  obtain ⟨A, B, rfl, -⟩ := h
  exact ⟨p, List.mem_append_right _ (List.mem_cons_self ..), rfl, hs⟩

/-- A new partition takes its slot. -/
theorem Retained.of_partition {p q : PartitionState} (h : Retained (J ++ [.partition q]) p) :
    p = q ∨ (J.Retained p ∧ q.header.slot ≠ p.header.slot) := by
  obtain ⟨A, B, he, hB⟩ := h
  rcases snoc_split he with ⟨-, -, hp⟩ | ⟨C, rfl, hJ⟩
  · left
    cases hp
    rfl
  · right
    refine ⟨⟨A, C, hJ, fun r hr => hB r (List.mem_append_left _ hr)⟩, ?_⟩
    exact hB q (List.mem_append_right _ (List.mem_singleton_self _))

theorem previous_record {q r : AcceptedRecord} {o : PartitionOptions} (ho : J.options = some o) :
    Previous (J ++ [.record r]) q ↔ q = r := by
  constructor
  · rintro ⟨A, B, o, he, -, hB, -⟩
    rcases snoc_split he with ⟨-, -, h⟩ | ⟨C, rfl, -⟩
    · cases h
      rfl
    · have := hB (.record r) (List.mem_append_right _ (List.mem_singleton_self _))
      cases this
  · rintro rfl
    exact ⟨J, [], o, rfl, ho, fun h hh => (by cases hh), fun p hp => (by cases hp)⟩

/-- The domain the last record was accepted in is the present one. -/
theorem Previous.domain {q : AcceptedRecord} {A B : Journal} {o : PartitionOptions}
    (ho : A.options = some o) (hB : ∀ h ∈ B, h.isRecord = false)
    (hp : ∀ p, .partition p ∈ B → p.header.options.timeDomainId = o.timeDomainId) :
    ∃ o', options (A ++ .record q :: B) = some o' ∧ o'.timeDomainId = o.timeDomainId := by
  induction B using List.reverseRecOn with
  | nil => exact ⟨o, by rw [options_record]; exact ho, rfl⟩
  | append_singleton B h ih =>
    obtain ⟨o', ho', hd⟩ := ih (fun h hh => hB h (List.mem_append_left _ hh))
      fun p hp' => hp p (List.mem_append_left _ hp')
    have hsnoc : A ++ .record q :: (B ++ [h]) = (A ++ .record q :: B) ++ [h] := by simp
    rw [hsnoc]
    cases h with
    | partition p =>
      exact ⟨p.header.options, options_partition .., hp p (by simp)⟩
    | record r =>
      have := hB (.record r) (by simp)
      cases this
    | block off b raw => exact ⟨o', by rw [options_block]; exact ho', hd⟩
    | footer f => exact ⟨o', by rw [options_footer]; exact ho', hd⟩

/-- A record was accepted into some partition. -/
theorem Previous.options {q : AcceptedRecord} (h : J.Previous q) : ∃ o, J.options = some o := by
  obtain ⟨A, B, o, rfl, ho, hB, hd⟩ := h
  obtain ⟨o', ho', -⟩ := Previous.domain (q := q) ho hB hd
  exact ⟨o', ho'⟩

/-- What is neither a record nor a partition does not matter to the next record. -/
theorem previous_other {q : AcceptedRecord} {h : Happening} (hr : h.isRecord = false)
    (hp : ∀ p, h ≠ .partition p) : Previous (J ++ [h]) q ↔ Previous J q := by
  constructor
  · rintro ⟨A, B, o, he, ho, hB, hd⟩
    rcases snoc_split he with ⟨-, -, rfl⟩ | ⟨C, rfl, rfl⟩
    · cases hr
    · exact ⟨A, C, o, rfl, ho, fun h hh => hB h (List.mem_append_left _ hh),
        fun p hp' => hd p (List.mem_append_left _ hp')⟩
  · rintro ⟨A, B, o, rfl, ho, hB, hd⟩
    refine ⟨A, B ++ [h], o, by simp, ho, fun h' hh => ?_, fun p hp' => ?_⟩
    · rcases List.mem_append.mp hh with hh | hh
      · exact hB h' hh
      · rw [List.mem_singleton.mp hh]
        exact hr
    · rcases List.mem_append.mp hp' with hp' | hp'
      · exact hd p hp'
      · exact absurd (List.mem_singleton.mp hp').symm (hp p)

theorem previous_partition {q : AcceptedRecord} {p : PartitionState} :
    Previous (J ++ [.partition p]) q ↔ Previous J q ∧
      ∃ o, J.options = some o ∧ o.timeDomainId = p.header.options.timeDomainId := by
  constructor
  · rintro ⟨A, B, o, he, ho, hB, hd⟩
    rcases snoc_split he with ⟨-, -, h⟩ | ⟨C, rfl, rfl⟩
    · cases h
    · have hC : ∀ h ∈ C, h.isRecord = false := fun h hh => hB h (List.mem_append_left _ hh)
      have hdC : ∀ p, .partition p ∈ C → p.header.options.timeDomainId = o.timeDomainId :=
        fun p hp' => hd p (List.mem_append_left _ hp')
      obtain ⟨o', ho', hd'⟩ := Previous.domain (q := q) ho hC hdC
      exact ⟨⟨A, C, o, rfl, ho, hC, hdC⟩, o', ho', hd'.trans (hd p (by simp)).symm⟩
  · rintro ⟨⟨A, B, o, rfl, ho, hB, hd⟩, o', ho', hp⟩
    obtain ⟨o'', ho'', hd''⟩ := Previous.domain (q := q) ho hB hd
    rw [ho''] at ho'
    obtain rfl := Option.some.inj ho'
    refine ⟨A, B ++ [.partition p], o, by simp, ho, fun h hh => ?_, fun p' hp' => ?_⟩
    · rcases List.mem_append.mp hh with hh | hh
      · exact hB h hh
      · rw [List.mem_singleton.mp hh]
        rfl
    · rcases List.mem_append.mp hp' with hp' | hp'
      · exact hd p' hp'
      · obtain rfl : p' = p := by simpa using hp'
        exact hp.symm.trans hd''

end

end Journal

/-! ## What the metadata have to say -/

/-- The step from one time to another is larger than the partition allows.  A negative bound allows
every step. -/
def Jumps (o : PartitionOptions) (before after : Int64) : Prop :=
  (0 ≤ o.allowedBackwardSkewNs.toInt ∧ o.allowedBackwardSkewNs.toInt < before.toInt - after.toInt) ∨
    (0 ≤ o.allowedForwardStepNs.toInt ∧ o.allowedForwardStepNs.toInt < after.toInt - before.toInt)

/-- The record, accepted after the journal, is too far from the one before it. -/
def Anomalous (A : Journal) (r : AcceptedRecord) : Prop :=
  ∃ o q, A.options = some o ∧ A.Previous q ∧ Jumps o q.time r.time

def orFlags (fs : List UInt32) : UInt32 := fs.foldl (· ||| ·) 0

/-- The least of the first times and the greatest of the second. -/
structure Spans (starts ends : List Int64) (low high : Int64) : Prop where
  low : IsLeast {t : Int | ∃ x ∈ starts, x.toInt = t} low.toInt
  high : IsGreatest {t : Int | ∃ x ∈ ends, x.toInt = t} high.toInt

/-- The flags tell exactly what the pending records are like. -/
structure FlagsOf (J : Journal) (flags : UInt32) : Prop where
  user : flags &&& 0xffff0000 = orFlags (J.pending.map AcceptedRecord.flags) &&& 0xffff0000
  unsynchronized : flags &&& blockFlagUnsynchronizedTime ≠ 0 ↔
    ∃ r ∈ J.pending, r.flags &&& recordFlagUnsynchronizedTime ≠ 0
  anomaly : flags &&& blockFlagTimeAnomaly ≠ 0 ↔ ∃ A r, J.PendingSince A r ∧ Anomalous A r
  rest : flags &&& 0x0000fffc = 0

/-- The block holds the pending records, and its metadata are theirs. -/
structure Describes (J : Journal) (b : BlockHeader) (raw : Bytes) : Prop where
  records : J.pending ≠ []
  raw : raw = J.pending.flatMap AcceptedRecord.record
  count : b.recordCount.toNat = J.pending.length
  times : Spans (J.pending.map AcceptedRecord.time) (J.pending.map AcceptedRecord.time)
    b.minTimeNs b.maxTimeNs
  flags : FlagsOf J b.flags

/-- The flags and the time range of a partition with these blocks; an empty range is zero. -/
structure Summary (es : List Extent) (flags : UInt32) (low high : Int64) : Prop where
  flags : flags = orFlags (es.map Extent.flags)
  times : es ≠ [] → Spans (es.map Extent.minTimeNs) (es.map Extent.maxTimeNs) low high
  empty : es = [] → low = 0 ∧ high = 0

/-! ### Times -/

theorem toInt_cond (x : Int64) : x.toInt =
    if 2 * x.toUInt64.toNat < 2 ^ 64 then (x.toUInt64.toNat : Int) else x.toUInt64.toNat - 2 ^ 64 := by
  have h : x.toInt = x.toUInt64.toBitVec.toInt := rfl
  rw [h, BitVec.toInt_eq_toNat_cond, UInt64.toNat_toBitVec]
  norm_cast

/-- The unsigned difference of two times is their exact difference. -/
theorem toNat_sub_time {x y : Int64} (h : x.toInt ≤ y.toInt) :
    ((y.toUInt64 - x.toUInt64).toNat : Int) = y.toInt - x.toInt := by
  have hx := x.toUInt64.toNat_lt
  have hy := y.toUInt64.toNat_lt
  rw [UInt64.toNat_sub]
  rw [toInt_cond, toInt_cond] at h ⊢
  split at h
  · split at h
    · omega
    · omega
  · split at h
    · omega
    · omega

theorem deltaExceeds_iff {earlier later allowed : Int64} (h : earlier.toInt ≤ later.toInt) :
    deltaExceeds earlier later allowed = true ↔
      0 ≤ allowed.toInt ∧ allowed.toInt < later.toInt - earlier.toInt := by
  have hneg : allowed < 0 ↔ allowed.toInt < 0 := Int64.lt_iff_toInt_lt
  have hlater : ¬ later < earlier := by
    rw [Int64.lt_iff_toInt_lt]
    omega
  unfold deltaExceeds
  rw [if_neg hlater]
  split
  · rename_i ha
    have ha := hneg.mp ha
    constructor
    · intro hf
      cases hf
    · omega
  · rename_i ha
    have ha : 0 ≤ allowed.toInt := not_lt.mp fun hlt => ha (hneg.mpr hlt)
    have hsub := toNat_sub_time h
    have hallowed : (allowed.toUInt64.toNat : Int) = allowed.toInt := by
      have hlt := allowed.toUInt64.toNat_lt
      rw [toInt_cond] at ha ⊢
      split at ha
      · rw [if_pos ‹_›]
      · omega
    rw [decide_eq_true_eq, gt_iff_lt, UInt64.lt_iff_toNat_lt]
    omega

/-- The check of `append_impl` is the one over the integers. -/
theorem timeAnomaly_iff {s : Store} {o : PartitionOptions} {time : Int64} :
    timeAnomaly s o time = true ↔ s.haveLastTime = true ∧ Jumps o s.lastTime time := by
  unfold timeAnomaly Jumps
  rw [Bool.and_eq_true, Bool.or_eq_true, Bool.and_eq_true, Bool.and_eq_true, decide_eq_true_eq,
    decide_eq_true_eq]
  refine and_congr_right fun _ => or_congr ?_ ?_
  · constructor
    · rintro ⟨hlt, hd⟩
      exact (deltaExceeds_iff (Int.le_of_lt (Int64.lt_iff_toInt_lt.mp hlt))).mp hd
    · intro h
      have hlt : time.toInt < s.lastTime.toInt := by omega
      exact ⟨Int64.lt_iff_toInt_lt.mpr hlt, (deltaExceeds_iff (Int.le_of_lt hlt)).mpr h⟩
  · constructor
    · rintro ⟨hlt, hd⟩
      exact (deltaExceeds_iff (Int.le_of_lt (Int64.lt_iff_toInt_lt.mp hlt))).mp hd
    · intro h
      have hlt : s.lastTime.toInt < time.toInt := by omega
      exact ⟨Int64.lt_iff_toInt_lt.mpr hlt, (deltaExceeds_iff (Int.le_of_lt hlt)).mpr h⟩

theorem toInt_min (x y : Int64) : (min x y).toInt = min x.toInt y.toInt := by
  have h : min x y = if x ≤ y then x else y := rfl
  rw [h]
  split
  · rename_i hxy
    exact (min_eq_left (Int64.le_iff_toInt_le.mp hxy)).symm
  · rename_i hxy
    rw [Int64.le_iff_toInt_le, not_le] at hxy
    exact (min_eq_right (Int.le_of_lt hxy)).symm

theorem toInt_max (x y : Int64) : (max x y).toInt = max x.toInt y.toInt := by
  have h : max x y = if x ≤ y then y else x := rfl
  rw [h]
  split
  · rename_i hxy
    exact (max_eq_right (Int64.le_iff_toInt_le.mp hxy)).symm
  · rename_i hxy
    rw [Int64.le_iff_toInt_le, not_le] at hxy
    exact (max_eq_left (Int.le_of_lt hxy)).symm

theorem times_snoc (xs : List Int64) (x : Int64) :
    {t : Int | ∃ y ∈ xs ++ [x], y.toInt = t} = insert x.toInt {t : Int | ∃ y ∈ xs, y.toInt = t} := by
  ext t
  simp only [Set.mem_ofPred_eq, List.mem_append, List.mem_singleton, Set.mem_insert_iff]
  constructor
  · rintro ⟨y, hy | rfl, rfl⟩
    · exact .inr ⟨y, hy, rfl⟩
    · exact .inl rfl
  · rintro (rfl | ⟨y, hy, rfl⟩)
    · exact ⟨x, .inr rfl, rfl⟩
    · exact ⟨y, .inl hy, rfl⟩

theorem Spans.single (x y : Int64) : Spans [x] [y] x y := by
  have hset (x : Int64) : {t : Int | ∃ y ∈ [x], y.toInt = t} = {x.toInt} := by
    ext t
    simp [eq_comm]
  refine ⟨?_, ?_⟩
  · rw [hset]
    exact isLeast_singleton
  · rw [hset]
    exact isGreatest_singleton

theorem Spans.snoc {xs ys : List Int64} {low high : Int64} (h : Spans xs ys low high) (x y : Int64) :
    Spans (xs ++ [x]) (ys ++ [y]) (min low x) (max high y) := by
  refine ⟨?_, ?_⟩
  · rw [times_snoc, toInt_min, min_comm]
    exact h.low.insert _
  · rw [times_snoc, toInt_max, max_comm]
    exact h.high.insert _

/-! ### Flags -/

theorem or_and_distrib32 (x y z : UInt32) : (x ||| y) &&& z = (x &&& z) ||| (y &&& z) := by
  apply UInt32.toBitVec_inj.mp
  simp only [UInt32.toBitVec_and, UInt32.toBitVec_or]
  ext i hi
  simp only [BitVec.getElem_and, BitVec.getElem_or, Bool.and_or_distrib_right]

theorem orFlags_snoc (fs : List UInt32) (f : UInt32) : orFlags (fs ++ [f]) = orFlags fs ||| f := by
  simp [orFlags]

/-- What one record contributes to the flags of its block. -/
def recordMark (flags : UInt32) (anomaly : Bool) : UInt32 :=
  (flags &&& 0xffff0000) |||
    (if flags &&& recordFlagUnsynchronizedTime ≠ 0 then blockFlagUnsynchronizedTime else 0) |||
    (if anomaly then blockFlagTimeAnomaly else 0)

theorem recordMark_bits (flags : UInt32) (anomaly : Bool) :
    recordMark flags anomaly &&& 0xffff0000 = flags &&& 0xffff0000 ∧
      (recordMark flags anomaly &&& blockFlagUnsynchronizedTime ≠ 0 ↔
        flags &&& recordFlagUnsynchronizedTime ≠ 0) ∧
      (recordMark flags anomaly &&& blockFlagTimeAnomaly ≠ 0 ↔ anomaly = true) ∧
      recordMark flags anomaly &&& 0x0000fffc = 0 := by
  have hmask (m n : UInt32) (h : (0xffff0000 : UInt32) &&& m = n) :
      flags &&& 0xffff0000 &&& m = flags &&& n := by rw [UInt32.and_assoc, h]
  unfold recordMark
  simp only [or_and_distrib32, hmask 0xffff0000 0xffff0000 (by decide),
    hmask blockFlagUnsynchronizedTime 0 (by decide), hmask blockFlagTimeAnomaly 0 (by decide),
    hmask 0x0000fffc 0 (by decide), UInt32.and_zero, UInt32.zero_or]
  have hu : blockFlagUnsynchronizedTime &&& 0xffff0000 = 0 := by decide
  have ha : blockFlagTimeAnomaly &&& 0xffff0000 = 0 := by decide
  by_cases hc : flags &&& recordFlagUnsynchronizedTime ≠ 0
  · rw [if_pos hc]
    cases anomaly with
    | false =>
      exact ⟨by simp [hu], iff_of_true (by decide) hc, iff_of_false (by decide) Bool.false_ne_true,
        by decide⟩
    | true => exact ⟨by simp [hu, ha], iff_of_true (by decide) hc, iff_of_true (by decide) rfl, by decide⟩
  · rw [if_neg hc]
    cases anomaly with
    | false =>
      exact ⟨by simp, iff_of_false (by decide) hc, iff_of_false (by decide) Bool.false_ne_true,
        by decide⟩
    | true => exact ⟨by simp [ha], iff_of_false (by decide) hc, iff_of_true (by decide) rfl, by decide⟩

theorem or_ne_zero32 {x y : UInt32} : x ||| y ≠ 0 ↔ x ≠ 0 ∨ y ≠ 0 := by
  rw [ne_eq, UInt32.or_eq_zero_iff, not_and_or]

namespace Journal

variable {J : Journal}

theorem pendingSince_record {A : Journal} {r q : AcceptedRecord} :
    PendingSince (J ++ [.record r]) A q ↔ J.PendingSince A q ∨ (A = J ∧ q = r) := by
  constructor
  · rintro ⟨B, he, hB⟩
    rcases snoc_split he with ⟨-, rfl, h⟩ | ⟨C, rfl, rfl⟩
    · cases h
      exact .inr ⟨rfl, rfl⟩
    · exact .inl ⟨C, rfl, fun h hh => hB h (List.mem_append_left _ hh)⟩
  · rintro (⟨B, rfl, hB⟩ | ⟨rfl, rfl⟩)
    · refine ⟨B ++ [.record r], by simp, fun h hh => ?_⟩
      rcases List.mem_append.mp hh with hh | hh
      · exact hB h hh
      · rw [List.mem_singleton.mp hh]
        rfl
    · exact ⟨[], rfl, fun h hh => (by cases hh)⟩

theorem pendingSince_other {A : Journal} {q : AcceptedRecord} {h : Happening}
    (hr : h.isRecord = false) (hb : h.isBlock = false) :
    PendingSince (J ++ [h]) A q ↔ J.PendingSince A q := by
  constructor
  · rintro ⟨B, he, hB⟩
    rcases snoc_split he with ⟨-, -, rfl⟩ | ⟨C, rfl, rfl⟩
    · cases hr
    · exact ⟨C, rfl, fun h hh => hB h (List.mem_append_left _ hh)⟩
  · rintro ⟨B, rfl, hB⟩
    refine ⟨B ++ [h], by simp, fun h' hh => ?_⟩
    rcases List.mem_append.mp hh with hh | hh
    · exact hB h' hh
    · rw [List.mem_singleton.mp hh]
      exact hb

theorem PendingSince.mem {A : Journal} {r : AcceptedRecord} (h : J.PendingSince A r) :
    r ∈ J.pending := by
  obtain ⟨B, rfl, hB⟩ := h
  induction B using List.reverseRecOn with
  | nil => simp
  | append_singleton B x ih =>
    have hsnoc : A ++ .record r :: (B ++ [x]) = (A ++ .record r :: B) ++ [x] := by simp
    have hmem := ih fun h hh => hB h (List.mem_append_left _ hh)
    rw [hsnoc]
    cases x with
    | partition p => rwa [pending_partition]
    | record q =>
      rw [pending_record]
      exact List.mem_append_left _ hmem
    | block off b raw =>
      have := hB (.block off b raw) (by simp)
      cases this
    | footer f => rwa [pending_footer]

end Journal

namespace FlagsOf

variable {J : Journal} {flags : UInt32}

/-- With no pending records no flag is set. -/
theorem zero (h : J.pending = []) : FlagsOf J 0 := by
  have hJ (A : Journal) (r : AcceptedRecord) : ¬ J.PendingSince A r := fun hr => by
    have := hr.mem
    rw [h] at this
    cases this
  refine ⟨?_, ?_, ?_, ?_⟩
  · rw [h]
    rfl
  · simp [h]
  · simp [hJ]
  · simp

/-- A record adds its mark. -/
theorem record (h : FlagsOf J flags) (r : AcceptedRecord) {anomaly : Bool}
    (ha : anomaly = true ↔ Anomalous J r) :
    FlagsOf (J ++ [.record r]) (flags ||| recordMark r.flags anomaly) := by
  obtain ⟨h1, h2, h3, h4⟩ := recordMark_bits r.flags anomaly
  refine ⟨?_, ?_, ?_, ?_⟩
  · rw [or_and_distrib32, h.user, h1, Journal.pending_record, List.map_append, List.map_singleton,
      orFlags_snoc, or_and_distrib32]
  · rw [or_and_distrib32, or_ne_zero32, h.unsynchronized, h2, Journal.pending_record]
    simp [or_and_right, exists_or]
  · rw [or_and_distrib32, or_ne_zero32, h.anomaly, h3, ha]
    simp only [Journal.pendingSince_record, or_and_right, exists_or]
    refine or_congr_right ⟨fun hr => ⟨J, r, ⟨rfl, rfl⟩, hr⟩, ?_⟩
    rintro ⟨_, _, ⟨rfl, rfl⟩, hr⟩
    exact hr
  · rw [or_and_distrib32, h.rest, h4, UInt32.or_self]

/-- Partitions and footers do not change what is pending. -/
theorem other (h : FlagsOf J flags) {x : Happening} (hr : x.isRecord = false)
    (hb : x.isBlock = false) (hp : Journal.pending (J ++ [x]) = J.pending) :
    FlagsOf (J ++ [x]) flags := by
  refine ⟨?_, ?_, ?_, h.rest⟩
  · rw [hp]
    exact h.user
  · rw [hp]
    exact h.unsynchronized
  · rw [h.anomaly]
    simp only [Journal.pendingSince_other hr hb]

end FlagsOf

/-! ## The totals of a partition -/

/-- The catalog entry sums up these blocks. -/
structure Totals (es : List Extent) (p : PartitionState) : Prop where
  flags : p.aggregateFlags = orFlags (es.map Extent.flags)
  hasTime : p.hasTime = true ↔ es ≠ []
  times : es ≠ [] → Spans (es.map Extent.minTimeNs) (es.map Extent.maxTimeNs) p.minTimeNs p.maxTimeNs

/-- One more block, as `addBlock` and `summarize` count it. -/
theorem Totals.snoc {es : List Extent} {p q : PartitionState} (h : Totals es p) (e : Extent)
    (hflags : q.aggregateFlags = p.aggregateFlags ||| e.flags) (htime : q.hasTime = true)
    (hmin : q.minTimeNs = if p.hasTime then min p.minTimeNs e.minTimeNs else e.minTimeNs)
    (hmax : q.maxTimeNs = if p.hasTime then max p.maxTimeNs e.maxTimeNs else e.maxTimeNs) :
    Totals (es ++ [e]) q := by
  refine ⟨?_, iff_of_true htime (by simp), fun _ => ?_⟩
  · rw [hflags, h.flags, List.map_append, List.map_singleton, orFlags_snoc]
  · rw [hmin, hmax, List.map_append, List.map_append]
    by_cases hes : es = []
    · subst hes
      have hfirst : ¬ p.hasTime = true := fun ht => h.hasTime.mp ht rfl
      rw [if_neg hfirst, if_neg hfirst]
      exact .single _ _
    · rw [if_pos (h.hasTime.mpr hes), if_pos (h.hasTime.mpr hes)]
      exact (h.times hes).snoc _ _

theorem Totals.foldl {es : List Extent} {p : PartitionState} (h : Totals es p)
    (entries : List IndexEntry) :
    Totals (es ++ entries.map IndexEntry.extent) (entries.foldl addTotals p) := by
  induction entries generalizing es p with
  | nil => simpa using h
  | cons e entries ih =>
    have hstep : Totals (es ++ [e.extent]) (addTotals p e) := h.snoc e.extent rfl rfl rfl rfl
    have := ih hstep
    rwa [List.append_assoc, List.singleton_append] at this

/-- `summarize` computes the totals of the index. -/
theorem totals_summarize (p : PartitionState) :
    Totals (p.activeIndex.map IndexEntry.extent) (summarize p) := by
  rw [summarize_eq]
  have h : Totals [] { p with
      aggregateFlags := 0, hasTime := false, blockCount := UInt32.ofNat p.activeIndex.length } :=
    ⟨rfl, by simp, by simp⟩
  exact h.foldl p.activeIndex

/-- What is reported of a partition. -/
theorem Totals.summary {es : List Extent} {p : PartitionState} (h : Totals es p) :
    Summary es p.aggregateFlags (if p.hasTime then p.minTimeNs else 0)
      (if p.hasTime then p.maxTimeNs else 0) := by
  refine ⟨h.flags, fun hes => ?_, fun hes => ?_⟩
  · rw [if_pos (h.hasTime.mpr hes), if_pos (h.hasTime.mpr hes)]
    exact h.times hes
  · have hnone : ¬ p.hasTime = true := fun ht => h.hasTime.mp ht hes
    rw [if_neg hnone, if_neg hnone]
    exact ⟨rfl, rfl⟩

end TFDB
