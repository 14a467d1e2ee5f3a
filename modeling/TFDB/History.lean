import TFDB.Reopen

/-!
# All partitions of a run

The ring forgets a partition when a newer one takes its slot.  `historyOf` lists all partitions of
the log, evicted or not, with their blocks.

* `newest` — the last partitions of a history, as many as the volume has slots;
* `evict_newest` — a new partition evicts the oldest of them, and only once the slots are used up;
* `Clean.history` — in a run without faults the generations are 1, 2, 3 and so on, and the ring is
  the newest part of the history.
-/

set_option autoImplicit false

namespace TFDB

open ByteLib Writer

/-! ## Histories -/

/-- The history after a write. -/
def historyAfter (qs : List RingPartition) : Item → List RingPartition
  | .header h => qs ++ [{ header := h }]
  | .frame b payload raw => amendLast (·.addBlock ⟨b, payload, raw⟩) qs
  | .footer _ _ => amendLast RingPartition.close qs
  | _ => qs

/-- All partitions these writes created, oldest first. -/
def historyOf (issued : List (Nat × Item)) : List RingPartition :=
  issued.foldl (fun qs w => historyAfter qs w.2) []

theorem historyOf_snoc (issued : List (Nat × Item)) (w : Nat × Item) :
    historyOf (issued ++ [w]) = historyAfter (historyOf issued) w.2 := by
  simp [historyOf, List.foldl_append]

/-- The newest partitions, as many as the volume has slots. -/
def newest (env : Env) (qs : List RingPartition) : List RingPartition :=
  qs.drop (qs.length - env.partitionCount)

/-- The generation behind the last partition. -/
def nextGeneration (qs : List RingPartition) : UInt64 :=
  (qs.getLast?.map fun q => q.header.generation + 1).getD 1

theorem amendLast_headers {f : RingPartition → RingPartition} (hf : ∀ q, (f q).header = q.header)
    (qs : List RingPartition) :
    (amendLast f qs).map RingPartition.header = qs.map RingPartition.header := by
  rcases List.eq_nil_or_concat qs with rfl | ⟨older, q, rfl⟩
  · rfl
  · simp [List.concat_eq_append, amendLast_append, hf]

section
variable {env : Env}

theorem newest_append (hc : 0 < env.partitionCount) (qs : List RingPartition) (q : RingPartition) :
    newest env (qs ++ [q]) = qs.drop (qs.length + 1 - env.partitionCount) ++ [q] := by
  unfold newest
  rw [List.length_append, List.length_singleton]
  exact List.drop_append_of_le_length (by omega)

theorem newest_amendLast (hc : 0 < env.partitionCount) (f : RingPartition → RingPartition)
    (qs : List RingPartition) : newest env (amendLast f qs) = amendLast f (newest env qs) := by
  rcases List.eq_nil_or_concat qs with rfl | ⟨older, q, rfl⟩
  · simp [newest, amendLast]
  · rw [List.concat_eq_append, amendLast_append, newest_append hc, newest_append hc, amendLast_append]

theorem newest_getLast? (hc : 0 < env.partitionCount) (qs : List RingPartition) :
    (newest env qs).getLast? = qs.getLast? := by
  rcases List.eq_nil_or_concat qs with rfl | ⟨older, q, rfl⟩
  · simp [newest]
  · rw [List.concat_eq_append, newest_append hc]
    simp

/-- The generations are 1, 2, 3 and so on, each in its slot. -/
structure Numbers (env : Env) (qs : List RingPartition) : Prop where
  generations : ∀ i (h : i < qs.length), (qs.get ⟨i, h⟩).header.generation.toNat = i + 1
  slots : ∀ q ∈ qs, SlotOf env q.header.slot q.header.generation

theorem Numbers.of_headers {qs qs' : List RingPartition} (h : Numbers env qs)
    (he : qs'.map RingPartition.header = qs.map RingPartition.header) : Numbers env qs' := by
  have hlen : qs'.length = qs.length := by
    simpa only [List.length_map] using congrArg List.length he
  constructor
  · intro i hi
    have hget : (qs'.get ⟨i, hi⟩).header = (qs.get ⟨i, hlen ▸ hi⟩).header := by
      have := congrArg (·[i]?) he
      simpa [hi, hlen ▸ hi] using this
    rw [hget]
    exact h.generations i (hlen ▸ hi)
  · intro q hq
    have hm : q.header ∈ qs.map RingPartition.header := he ▸ List.mem_map_of_mem hq
    obtain ⟨q', hq', hqq⟩ := List.mem_map.mp hm
    rw [← hqq]
    exact h.slots q' hq'

theorem Numbers.snoc {qs : List RingPartition} (h : Numbers env qs) {q : RingPartition}
    (hg : q.header.generation.toNat = qs.length + 1)
    (hs : SlotOf env q.header.slot q.header.generation) : Numbers env (qs ++ [q]) := by
  constructor
  · intro i hi
    rw [List.get_eq_getElem]
    by_cases hlt : i < qs.length
    · rw [List.getElem_append_left hlt]
      exact h.generations i hlt
    · have hlast : i = qs.length := by
        rw [List.length_append, List.length_singleton] at hi
        omega
      subst hlast
      rw [List.getElem_append_right (Nat.le_refl _)]
      simpa using hg
  · intro r hr
    rcases List.mem_append.mp hr with hr | hr
    · exact h.slots r hr
    · rw [List.mem_singleton.mp hr]
      exact hs

/-- Two indexes less than a period apart are not congruent. -/
theorem mod_ne_of_close {i j c : Nat} (h1 : i < j) (h2 : j - i < c) : i % c ≠ j % c := by
  intro he
  have h0 := Nat.sub_mod_eq_zero_of_mod_eq he.symm
  rw [Nat.mod_eq_of_lt h2] at h0
  omega

/-- A new partition evicts the oldest of the newest ones, once there are as many as slots. -/
theorem evict_newest {qs : List RingPartition} (h : Numbers env qs) {slot : UInt32}
    (hslot : slot.toNat = qs.length % env.partitionCount) :
    evict slot (newest env qs) = qs.drop (qs.length + 1 - env.partitionCount) := by
  -- the slot of the partition with an index, and whether it is the new one's
  have keep (i : Nat) (hi : i < qs.length) (hclose : qs.length - i < env.partitionCount) :
      (qs.get ⟨i, hi⟩).header.slot ≠ slot := by
    intro he
    have hs := (h.slots _ (List.get_mem qs ⟨i, hi⟩)).2
    rw [he, hslot, h.generations i hi, Nat.add_sub_cancel] at hs
    exact mod_ne_of_close hi hclose hs.symm
  have filter (k : Nat) (hk : qs.length - k < env.partitionCount) :
      evict slot (qs.drop k) = qs.drop k := by
    refine List.filter_eq_self.mpr fun q hq => ?_
    obtain ⟨i, hi, rfl⟩ := List.mem_iff_getElem.mp hq
    rw [List.getElem_drop]
    rw [List.length_drop] at hi
    simpa using keep (k + i) (by omega) (by omega)
  unfold newest
  by_cases hfull : qs.length < env.partitionCount
  · rw [show qs.length - env.partitionCount = 0 by omega,
      show qs.length + 1 - env.partitionCount = 0 by omega]
    exact filter 0 (by omega)
  · by_cases hpos : 0 < env.partitionCount
    · have hlt : qs.length - env.partitionCount < qs.length := by omega
      rw [List.drop_eq_getElem_cons hlt,
        show qs.length + 1 - env.partitionCount = qs.length - env.partitionCount + 1 by omega]
      have hout : qs[qs.length - env.partitionCount].header.slot = slot := by
        have hs := (h.slots _ (List.getElem_mem hlt)).2
        have hg := h.generations _ hlt
        rw [List.get_eq_getElem] at hg
        rw [hg, Nat.add_sub_cancel] at hs
        refine UInt32.toNat_inj.mp (hs.trans ?_)
        rw [hslot, ← Nat.mod_eq_sub_mod (by omega)]
      have hrest := filter (qs.length - env.partitionCount + 1) (by omega)
      unfold evict at hrest ⊢
      rw [List.filter_cons, if_neg (by simp [hout]), hrest]
    · rw [List.drop_of_length_le (by omega), List.drop_of_length_le (by omega)]
      rfl

end

/-! ## The history of a run without faults -/

/-- What the log of a run without faults says of its partitions. -/
structure History (env : Env) (d : Disk Item) : Prop where
  numbers : Numbers env (historyOf d.issued)
  ring : ringOf d.issued = newest env (historyOf d.issued)
  packed : ∀ q ∈ historyOf d.issued, ∀ k ∈ q.blocks, k.raw.length ≤ env.maxBlockPayload

/-- A partition that is about to be created has the next generation. -/
def HistoryPhase (d : Disk Item) (φ : Phase) : Prop :=
  ∀ c slot generation, φ = .rotating c slot generation →
    generation = nextGeneration (ringOf d.issued)

section
variable {env : Env} {d : Disk Item} {prior : Image}

/-- A write that changes at most the last partition, and not its header. -/
theorem History.amend (h : History env d) (g : Geometry env) {off n : Nat} {i : Item}
    {f : RingPartition → RingPartition} (hf : ∀ q, (f q).header = q.header)
    (hpacked : ∀ q, (∀ k ∈ q.blocks, k.raw.length ≤ env.maxBlockPayload) →
      ∀ k ∈ (f q).blocks, k.raw.length ≤ env.maxBlockPayload)
    (h1 : ringOf (d.issue off i n).issued = amendLast f (ringOf d.issued))
    (h2 : historyOf (d.issue off i n).issued = amendLast f (historyOf d.issued)) :
    History env (d.issue off i n) := by
  have hc : 0 < env.partitionCount := Nat.lt_of_lt_of_le (by decide) g.count
  constructor
  · rw [h2]
    exact h.numbers.of_headers (amendLast_headers hf _)
  · rw [h1, h2, newest_amendLast hc, h.ring]
  · rw [h2]
    have hall := h.packed
    rcases List.eq_nil_or_concat (historyOf d.issued) with hnil | ⟨older, q, hqs⟩
    · rw [hnil]
      exact fun q hq => (by cases hq)
    · rw [List.concat_eq_append] at hqs
      rw [hqs] at hall ⊢
      rw [amendLast_append]
      intro r hr
      rcases List.mem_append.mp hr with hr | hr
      · exact hall r (List.mem_append_left _ hr)
      · rw [List.mem_singleton.mp hr]
        exact hpacked q (hall q (List.mem_append_right _ (List.mem_singleton_self _)))

/-- The generation of the next partition, as long as it can be counted. -/
theorem History.next (h : History env d) (g : Geometry env)
    (hlt : ∀ q ∈ ringOf d.issued, q.header.generation < nextGeneration (ringOf d.issued)) :
    (nextGeneration (ringOf d.issued)).toNat = (historyOf d.issued).length + 1 := by
  have hc : 0 < env.partitionCount := Nat.lt_of_lt_of_le (by decide) g.count
  have hlast := @newest_getLast? env hc (historyOf d.issued)
  rw [← h.ring] at hlast
  rcases List.eq_nil_or_concat (historyOf d.issued) with hnil | ⟨older, q, hqs⟩
  · rw [hnil] at hlast ⊢
    unfold nextGeneration
    rw [hlast]
    rfl
  · rw [List.concat_eq_append] at hqs
    rw [hqs, List.getLast?_concat] at hlast
    have hq : q ∈ ringOf d.issued := List.mem_of_getLast? hlast
    have hlt := hlt q hq
    unfold nextGeneration at hlt ⊢
    rw [hlast] at hlt ⊢
    have hgen := h.numbers.generations older.length (by rw [hqs]; simp)
    simp only [hqs, List.get_eq_getElem, List.getElem_concat_length] at hgen
    simp only [Option.map_some, Option.getD_some] at hlt ⊢
    rw [UInt64.lt_iff_toNat_lt, UInt64.toNat_add] at hlt
    rw [UInt64.toNat_add, hqs, List.length_append, List.length_singleton, hgen]
    have h1 : (1 : UInt64).toNat = 1 := rfl
    rw [h1, hgen] at hlt
    have hsize := q.header.generation.toNat_lt
    rw [h1]
    omega

/-- One write of the protocol. -/
theorem History.write (h : History env d) (g : Geometry env) {φ φ' : Phase}
    (hφ : RingPhase env d φ) (hnext : HistoryPhase d φ) {off : Nat} {i : Item}
    (hw : Phase.Write env φ off i φ') (n : Nat) : History env (d.issue off i n) := by
  have hc : 0 < env.partitionCount := Nat.lt_of_lt_of_le (by decide) g.count
  cases hw with
  | @frame c p b payload raw hp hs hf =>
    refine h.amend g (f := (·.addBlock ⟨b, payload, raw⟩)) (fun q => rfl) ?_
      (by rw [Disk.issue_issued, ringOf_snoc]; rfl) (by rw [Disk.issue_issued, historyOf_snoc]; rfl)
    intro q hq k hk
    rcases List.mem_append.mp hk with hk | hk
    · exact hq k hk
    · rw [List.mem_singleton.mp hk]
      exact hf.raw_le
  | @index c p hp hs hd hne hfit =>
    have h1 : ringOf (d.issue (env.partitionBase p.header.slot + env.indexBegin)
        (.index p.activeIndex) n).issued = ringOf d.issued := by
      rw [Disk.issue_issued, ringOf_snoc]
      rfl
    have h2 : historyOf (d.issue (env.partitionBase p.header.slot + env.indexBegin)
        (.index p.activeIndex) n).issued = historyOf d.issued := by
      rw [Disk.issue_issued, historyOf_snoc]
      rfl
    exact ⟨by rw [h2]; exact h.numbers, by rw [h1, h2]; exact h.ring, by rw [h2]; exact h.packed⟩
  | footer hp hs hfit =>
    exact h.amend g (f := RingPartition.close) (fun q => rfl) (fun q hq => hq)
      (by rw [Disk.issue_issued, ringOf_snoc]; rfl) (by rw [Disk.issue_issued, historyOf_snoc]; rfl)
  | emptyFooter hp hs hd hne =>
    exact h.amend g (f := RingPartition.close) (fun q => rfl) (fun q hq => hq)
      (by rw [Disk.issue_issued, ringOf_snoc]; rfl) (by rw [Disk.issue_issued, historyOf_snoc]; rfl)
  | @header c slot generation options ho =>
    obtain ⟨-, hall, hslot⟩ := hφ
    have hgen := hnext c slot generation rfl
    have hcount : generation.toNat = (historyOf d.issued).length + 1 := by
      rw [hgen]
      exact h.next g fun q hq => hgen ▸ (hall q hq).2
    have h2 : historyOf (d.issue (env.partitionBase slot)
        (.header (newHeader env slot generation options)) n).issued =
        historyOf d.issued ++ [{ header := newHeader env slot generation options }] := by
      rw [Disk.issue_issued, historyOf_snoc]
      rfl
    constructor
    · rw [h2]
      exact h.numbers.snoc hcount hslot
    · rw [h2, newest_append hc, Disk.issue_issued, ringOf_snoc]
      show evict slot (ringOf d.issued) ++ _ = _
      rw [h.ring, evict_newest h.numbers]
      rw [hslot.2, hcount, Nat.add_sub_cancel]
    · rw [h2]
      intro q hq k hk
      rcases List.mem_append.mp hq with hq | hq
      · exact h.packed q hq k hk
      · rw [List.mem_singleton.mp hq] at hk
        cases hk

/-- The phase behind a flush. -/
theorem HistoryPhase.flush (hr : RingInv env prior d) {φ φ' : Phase} (hφ : RingPhase env d φ)
    (hf : Phase.Flush env φ φ') : HistoryPhase (d.flush (Item.bytes env)) φ' := by
  intro c' slot generation hc'
  cases hf with
  | sync => cases hc'
  | install => cases hc'
  | @sealed c p hp hs hg =>
    cases hc'
    obtain ⟨older, q, hqs, ho, hc⟩ := hφ
    have horder := hr.order
    rw [hqs] at horder
    have hst := hc.active (fun r hm => (horder.last.2 r hm).1) hp
    rw [Disk.flush_issued, hqs, nextGeneration, List.getLast?_concat, hst.generation]
    rfl

/-- The phase a writable open starts in. -/
theorem HistoryPhase.opened (g : Geometry env) (hr : RingInv env prior d)
    (hm : env.volume.volumeSize.toNat ≤ prior.size) (hc : CollisionFreeNow env d)
    (id : UInt64 × UInt64) :
    HistoryPhase d (openPhase env (d.volatile (Item.bytes env)) id) := by
  intro c slot generation he
  unfold openPhase at he
  split at he
  · cases he
  rename_i hd
  rw [ne_eq, not_not] at hd
  have hv : ∀ q ∈ ringOf d.issued, q.header.options.compressionVersion ≠ 0 := by
    intro q hq
    have hlt := (hr.sound q hq).made.slotOf.lt g
    exact hr.version g hq
      (Bool.eq_false_iff.mpr (List.filter_eq_nil_iff.mp hd _ (mem_slotList.mpr hlt)))
  rw [hr.catalog g hm hc hv, List.getLast?_map] at he
  unfold nextGeneration
  cases hlast : (ringOf d.issued).getLast? with
  | none =>
    rw [hlast] at he
    cases he
    rfl
  | some q =>
    rw [hlast] at he
    simp only [Option.map_some, RingPartition.recovered_header] at he
    split at he
    · split at he
      · cases he
      · cases he
        rfl
    · cases he

/-- **The history of a run without faults**: its generations are consecutive, and the ring is its
newest part. -/
theorem Clean.history {assumed : Disk Item → Prop}
    (hassumed : ∀ d, assumed d → CollisionFreeNow env d) {so : Option Store}
    (h : Clean env prior assumed d so) : History env d := by
  refine (h.kept hassumed (K := fun d φ => History env d ∧ HistoryPhase d φ) ?_ ?_ ?_ ?_ ?_).1.1
  · refine ⟨⟨⟨fun i hi => ?_, fun q hq => ?_⟩, ?_, fun q hq => ?_⟩, fun c slot generation hc => ?_⟩
    · exact absurd hi (Nat.not_lt_zero i)
    · cases hq
    · simp [newest, historyOf, ringOf, formatProgram, WriteProg.exec, historyAfter, ringAfter]
    · cases hq
    · cases hc
  · intro d id g hm hr ha hk
    exact ⟨hk.1, .opened g hr hm (hassumed d ha) id⟩
  · intro d φ off i φ' g hr hφ hw hk
    refine ⟨hk.1.write g hφ hk.2 hw _, fun c slot generation hc => ?_⟩
    cases hw <;> cases hc
  · intro d φ φ' g hr hφ hf hk
    exact ⟨⟨hk.1.numbers, hk.1.ring, hk.1.packed⟩, .flush hr hφ hf⟩
  · intro d φ hk
    exact ⟨hk.1, fun c slot generation hc => (by cases hc)⟩

end

end TFDB
