import TFDB.Query
import TFDB.Log

/-!
# Strict verification

`open` with `verify_payloads_on_open` reads every block of every partition through the sealed index
or through the scan.

* `StrictSlot` — a slot passes strict verification; `recoverSlots_strict_iff` — strict recovery is
  recovery in which every slot does;
* `VerifiedIndex` — what verification leaves of a partition: an index and a readable block for
  every entry of it;
* `VerifiedIndex.acquired` — the index a query acquires is the verified one, also by a bounded
  rescan.
-/

set_option autoImplicit false

namespace TFDB

open ByteLib

/-! ## Slots -/

/-- A slot passes strict verification. -/
def StrictSlot (env : Env) (m : Image) (slot : UInt32) : Prop :=
  slotDamaged env m slot = false ∧
    ∀ h, slotHeader env m slot = .ok h →
      ∃ p, Rd.run (imageSource m) (recoverPartition env true h) = .ok p

section
variable {env : Env} {m : Image} (g : Geometry env) (hm : env.volume.volumeSize.toNat ≤ m.size)
include g hm

theorem run_recoverHeader_strict {slot : UInt32} (hs : slot < env.volume.partitionCount) :
    Rd.run (imageSource m) (recoverHeader env true slot) =
      match slotHeader env m slot with
      | .ok h => .ok (.valid h)
      | .error e => if slotEvidence env m slot then .error e else .ok .empty := by
  simp only [recoverHeader, Rd.run_bind, Rd.run_attempt, Rd.bind_ok, run_readPartitionHeader g hm hs]
  have hio := codes_acceptPartitionHeader env slot
    (m.window (env.partitionBase slot) partitionHeaderEncodedSize)
  unfold slotHeader
  cases hacc : acceptPartitionHeader env slot
      (m.window (env.partitionBase slot) partitionHeaderEncodedSize) with
  | ok h => rfl
  | error e =>
    simp only [(hio e hacc).not_io, Bool.false_eq_true, if_false, if_true, Rd.run_bind,
      run_currentVolumeEvidence g hm hs, Rd.bind_ok, Rd.run_ite, Rd.run_fail, Rd.run_pure, ite_self]

/-- **Strict recovery is recovery in which every slot passes verification.** -/
theorem recoverSlots_strict_iff (slots : List UInt32)
    (hs : ∀ slot ∈ slots, slot < env.volume.partitionCount) (r r' : Recovery) :
    Rd.run (imageSource m) (recoverSlots env true slots r) = .ok r' ↔
      Rd.run (imageSource m) (recoverSlots env false slots r) = .ok r' ∧
        ∀ slot ∈ slots, StrictSlot env m slot := by
  induction slots generalizing r with
  | nil => exact ⟨fun h => ⟨h, fun s hs => by cases hs⟩, fun h => h.1⟩
  | cons slot slots ih =>
    have hslot := hs slot (List.mem_cons_self ..)
    have hrest : ∀ s ∈ slots, s < env.volume.partitionCount :=
      fun s h => hs s (List.mem_cons_of_mem _ h)
    simp only [recoverSlots, Rd.run_bind, run_recoverHeader_strict g hm hslot,
      run_recoverHeader g hm hslot, List.forall_mem_cons]
    cases hh : slotHeader env m slot with
    | error e =>
      have hstrict : StrictSlot env m slot ↔ slotEvidence env m slot = false := by
        rw [StrictSlot, slotDamaged_of_error hh, hh]
        exact ⟨fun h => h.1, fun h => ⟨h, fun _ hx => by cases hx⟩⟩
      rw [hstrict]
      dsimp only
      cases hev : slotEvidence env m slot with
      | true => simp
      | false =>
        simp only [Bool.false_eq_true, if_false, Rd.bind_ok, true_and]
        exact ih hrest r
    | ok h =>
      have hstrict : StrictSlot env m slot ↔
          ∃ p, Rd.run (imageSource m) (recoverPartition env true h) = .ok p := by
        rw [StrictSlot, slotDamaged_of_ok hh, hh]
        exact ⟨fun hx => hx.2 h rfl, fun hx => ⟨rfl, fun _ he => Except.ok.inj he ▸ hx⟩⟩
      rw [hstrict]
      simp only [Rd.bind_ok, Rd.run_ite, Rd.run_fail, Rd.run_bind]
      split
      · simp
      split
      · simp
      constructor
      · intro hrun
        obtain ⟨p, hp, hrun⟩ := bind_ok_inv hrun
        rw [recoverPartition_strict hp]
        obtain ⟨h1, h2⟩ := (ih hrest _).mp hrun
        exact ⟨h1, ⟨p, hp⟩, h2⟩
      · rintro ⟨hrun, ⟨p, hp⟩, hall⟩
        rw [recoverPartition_strict hp] at hrun
        rw [hp]
        exact (ih hrest _).mpr ⟨hrun, hall⟩

end

/-! ## Blocks -/

theorem blockOutcome_header {env : Env} {m : Image} {p q : PartitionState} (h : p.header = q.header)
    (e : IndexEntry) : blockOutcome env m p e = blockOutcome env m q e := by
  cases p
  cases q
  cases h
  unfold blockOutcome blockHeaderAt payloadAt
  rfl

/-- Every entry names a readable block. -/
def AllRead (env : Env) (m : Image) (p : PartitionState) (es : List IndexEntry) : Prop :=
  ∀ e ∈ es, ∃ metadata decoded, blockOutcome env m p e = .ok (metadata, decoded)

section
variable {env : Env} {m : Image} (g : Geometry env) (hm : env.volume.volumeSize.toNat ≤ m.size)
include g hm

theorem run_verifyBlocks {p : PartitionState} (hs : p.header.slot < env.volume.partitionCount)
    (hh : slotHeader env m p.header.slot = .ok p.header) (es : List IndexEntry)
    (hin : ∀ e ∈ es, EntryIn env e) :
    Rd.run (imageSource m) (verifyBlocks env p es) = .ok () ↔ AllRead env m p es := by
  induction es with
  | nil => exact ⟨fun _ e he => (by cases he), fun _ => rfl⟩
  | cons e es ih =>
    have hrest := ih fun e' he => hin e' (List.mem_cons_of_mem _ he)
    simp only [verifyBlocks, Rd.run_bind, run_readBlock g hm hs hh rfl (hin e (List.mem_cons_self ..))]
    constructor
    · intro hrun
      obtain ⟨⟨metadata, decoded⟩, hb, hrun⟩ := bind_ok_inv hrun
      refine (List.forall_mem_cons (p := fun e => ∃ metadata decoded,
        blockOutcome env m p e = .ok (metadata, decoded))).mpr ⟨⟨metadata, decoded, hb⟩, ?_⟩
      exact hrest.mp hrun
    · intro hall
      obtain ⟨metadata, decoded, hb⟩ := hall e (List.mem_cons_self ..)
      rw [hb]
      exact hrest.mpr fun e' he => hall e' (List.mem_cons_of_mem _ he)

end

/-! ## Indexes -/

section
variable {env : Env} {m : Image} {h : PartitionHeader} {limit : Nat} {st st' : ScanState}
  {fs : List (BlockHeader × Bytes)}

/-- A chain that ends in front of another limit is a chain for it. -/
theorem Chain.narrow {limit' : Nat} (hc : Chain env m h limit st fs st') (hl : st'.cursor ≤ limit') :
    Chain env m h limit' st fs st' := by
  induction hc with
  | nil st => exact .nil st
  | @cons st st' b x fs hf hc ih =>
    have h1 := hf.bounds.2
    have h2 : st.cursor + b.frameSpan.toNat ≤ st'.cursor := hc.cursor_le
    refine .cons ⟨by omega, hf.header, ?_, hf.payload_eq, hf.crc⟩ (ih hl)
    exact { hf.accepted with span_le := by omega }

/-- A chain that leaves no room for a frame is what the scan returns, without a corruption. -/
theorem Chain.scanLoop (g : Geometry env) (hm : env.volume.volumeSize.toNat ≤ m.size)
    (hs : h.slot < env.volume.partitionCount) (hl : limit ≤ env.indexBegin)
    (hc : Chain env m h limit st fs st') (hend : limit < st'.cursor + blockHeaderEncodedSize)
    (steps : Nat) (hsteps : limit < steps + st.cursor) :
    Rd.run (imageSource m) (scanLoop env h limit steps st) = .ok (st'.stop false) := by
  have hsum := g.indexBegin_add
  induction hc generalizing steps with
  | nil st =>
    cases steps with
    | zero => rfl
    | succ steps =>
      simp only [TFDB.scanLoop, Rd.run_ite]
      rw [if_neg (by omega)]
      rfl
  | @cons st st' b x fs hf hc ih =>
    cases steps with
    | zero =>
      have := hf.inside
      simp only [blockHeaderEncodedSize] at this
      omega
    | succ steps =>
      have hb := hf.bounds
      have hin := hf.inside
      have hread : imageSource m (env.partitionBase h.slot + st.cursor) blockHeaderEncodedSize =
          .ok (m.window (env.partitionBase h.slot + st.cursor) blockHeaderEncodedSize) :=
        slot_read g hm hs (by omega)
      have hread2 : imageSource m (env.partitionBase h.slot + st.cursor + blockHeaderEncodedSize)
          b.storedSize.toNat = .ok x := by
        rw [← hf.payload_eq, Nat.add_assoc]
        exact slot_read g hm hs (by omega)
      simp only [TFDB.scanLoop, Rd.run_ite, if_pos hf.inside, Rd.run_bind, Rd.run_readExact, hread,
        Rd.bind_ok, hf.header, if_pos (scanAccepts_iff.mpr hf.accepted), hread2, hf.crc, ne_eq,
        not_true_eq_false, if_false]
      refine ih hend steps ?_
      have : 0 < b.frameSpan.toNat := by
        simp only [blockHeaderEncodedSize] at hb
        omega
      simp only [ScanState.next]
      omega

/-- The entries of a chain lie in the data region. -/
theorem Chain.entriesIn (g : Geometry env) (hl : limit ≤ env.indexBegin)
    (hc : Chain env m h limit st fs st') (hst : partitionHeaderRegionSize ≤ st.cursor) :
    ∀ e ∈ chainEntries st.cursor fs, EntryIn env e := by
  induction hc with
  | nil st => exact fun e he => by cases he
  | @cons st st' b x fs hf hc ih =>
    have hsize := Geometry.partitionSize_lt env
    have hindex := g.indexBegin_add
    have hin := hf.inside
    have hb := hf.bounds
    intro e he
    rcases List.mem_cons.mp he with rfl | he
    · have hoff : (blockEntry st.cursor b).offset.toNat = st.cursor :=
        UInt64.toNat_ofNat_of_lt' (by show _ < 2 ^ 64; omega)
      refine ⟨by rw [hoff]; exact hst, by rw [hoff]; exact hf.accepted.cursor_aligned, ?_, ?_⟩
      · show blockHeaderEncodedSize ≤ b.frameSpan.toNat
        omega
      · rw [hoff]
        show st.cursor + b.frameSpan.toNat ≤ _
        omega
    · refine ih ?_ e he
      simp only [ScanState.next]
      omega

/-- The entries of a chain are numbered in order. -/
theorem Chain.sequences {n : Nat} (hc : Chain env m h limit st fs st')
    (hn : st.expectedSequence = UInt32.ofNat n) :
    (chainEntries st.cursor fs).map (·.sequence) =
      (List.range fs.length).map fun i => UInt32.ofNat (n + i) := by
  induction hc generalizing n with
  | nil st => rfl
  | @cons st st' b x fs hf hc ih =>
    have hnext : (st.next b).expectedSequence = UInt32.ofNat (n + 1) := by
      simp only [ScanState.next, hn, UInt32.ofNat_add]
      rfl
    have hseq : (blockEntry st.cursor b).sequence = UInt32.ofNat n := hf.accepted.sequence.trans hn
    have htail := ih hnext
    simp only [ScanState.next] at htail
    rw [chainEntries, List.map_cons, hseq, htail, List.length_cons, List.range_succ_eq_map,
      List.map_cons, List.map_map]
    refine congrArg₂ _ rfl (List.map_congr_left fun i _ => ?_)
    simp only [Function.comp, Nat.succ_eq_add_one]
    congr 1
    omega

end

/-- The entries `load_index` accepts are numbered. -/
theorem checkEntries_sequences {env : Env} {es : List IndexEntry} {i off stop : Nat}
    (h : checkEntries env i off es = .ok stop) :
    es.map (fun e => e.sequence.toNat) = (List.range es.length).map (i + ·) := by
  induction es generalizing i off with
  | nil => rfl
  | cons e es ih =>
    simp only [checkEntries] at h
    split at h
    · simp at h
    rename_i hc
    split at h
    · simp at h
    push Not at hc
    rw [List.map_cons, ih h, hc.1, List.length_cons, List.range_succ_eq_map, List.map_cons,
      List.map_map]
    refine congrArg₂ _ rfl (List.map_congr_left fun j _ => ?_)
    simp only [Function.comp, Nat.succ_eq_add_one]
    omega

/-- The checks of `load_index` place and number the entries. -/
theorem checkEntries_spec {env : Env} (g : Geometry env) {es : List IndexEntry} {i off stop : Nat}
    (h : checkEntries env i off es = .ok stop) (hoff : partitionHeaderRegionSize ≤ off)
    (hal : off % env.quantum = 0) :
    (∀ e ∈ es, EntryIn env e) ∧
      es.map (fun e => e.sequence.toNat) = (List.range es.length).map (i + ·) := by
  refine ⟨?_, checkEntries_sequences h⟩
  induction es generalizing i off with
  | nil => exact fun e he => (by cases he)
  | cons e es ih =>
    simp only [checkEntries] at h
    split at h
    · simp at h
    rename_i hc
    split at h
    · simp at h
    rename_i hspan
    push Not at hc hspan
    obtain ⟨-, ho, -, -, hsize, -, -, hq, hle⟩ := hc
    have hq0 : 0 < env.quantum := g.quantum_pos
    have hspan' := (alignUp_spec hspan).2.1
    have h128 : 128 ≤ e.frameSize.toNat := UInt32.le_iff_toNat_le.mp (UInt32.not_lt.mp hsize)
    have hin : EntryIn env e := by
      refine ⟨by rw [ho]; exact hoff, by rw [ho]; exact hal, ?_, ?_⟩
      · simp only [blockHeaderEncodedSize]
        omega
      · have hpos : 0 < e.frameSpan.toNat := by omega
        omega
    refine (List.forall_mem_cons (p := fun e => EntryIn env e)).mpr ⟨hin, ?_⟩
    exact ih h (by omega) (by rw [Nat.add_mod, hal, hq]; simp)

/-- What `load_index` checked of the entries it returns. -/
theorem loadIndex_inv {env : Env} {src : Source Status} {p : PartitionState} {es : List IndexEntry}
    (h : Rd.run src (loadIndex env p) = .ok es) :
    (p.footer.indexSize = 0 ∧ es = []) ∨
      (es.length = p.footer.blockCount.toNat ∧
        ∃ stop, checkEntries env 0 partitionHeaderRegionSize es = .ok stop) := by
  unfold loadIndex at h
  split at h
  · cases h
  split at h
  · rename_i h0
    cases h
    exact Or.inl ⟨h0, rfl⟩
  · simp only [Rd.run_bind, Rd.run_readExact, Rd.run_lift] at h
    obtain ⟨bytes, -, h⟩ := bind_ok_inv h
    unfold acceptIndex at h
    split at h
    · simp at h
    obtain ⟨entries, -, h⟩ := bind_ok_inv h
    split at h
    · simp at h
    rename_i hlen
    obtain ⟨stop, hstop, h⟩ := bind_ok_inv h
    split at h
    · simp at h
    cases h
    exact Or.inr ⟨not_not.mp hlen, stop, hstop⟩

/-- The index `load_index` returns. -/
theorem loadIndex_spec {env : Env} (g : Geometry env) {m : Image} {p : PartitionState}
    {es : List IndexEntry} (hsz : p.footer.indexSize.toNat =
      p.footer.blockCount.toNat * indexEntryEncodedSize)
    (h : Rd.run (imageSource m) (loadIndex env p) = .ok es) :
    (∀ e ∈ es, EntryIn env e) ∧ es.length = p.footer.blockCount.toNat ∧
      es.map (fun e => e.sequence.toNat) = List.range es.length := by
  rcases loadIndex_inv h with ⟨h0, rfl⟩ | ⟨hlen, stop, hstop⟩
  · refine ⟨fun e he => (by cases he), ?_, rfl⟩
    rw [h0] at hsz
    have : p.footer.blockCount.toNat * 48 = 0 := hsz.symm
    simp only [List.length_nil]
    omega
  · obtain ⟨h1, h2⟩ := checkEntries_spec g hstop (Nat.le_refl _) g.header_aligned
    refine ⟨h1, hlen, ?_⟩
    rw [h2]
    simp

/-- A frame of a chain is the block its entry names. -/
theorem FrameAt.blockAt {env : Env} {m : Image} {p : PartitionState} {limit : Nat} {st : ScanState}
    {b : BlockHeader} {x : Bytes} (hf : FrameAt env m p.header limit st b x)
    (hlt : st.cursor < 2 ^ 64) :
    BlockAt env m p (blockEntry st.cursor b) b ∧ payloadAt env m p (blockEntry st.cursor b) b = x := by
  have hoff : (blockEntry st.cursor b).offset.toNat = st.cursor := UInt64.toNat_ofNat_of_lt' hlt
  have ha := hf.accepted
  have hpay : payloadAt env m p (blockEntry st.cursor b) b = x := by
    rw [payloadAt, hoff]
    exact hf.payload_eq
  refine ⟨⟨?_, ?_, ?_, ha.span, ?_⟩, hpay⟩
  · unfold blockHeaderAt
    rw [hoff]
    exact hf.header
  · simp [identityAgrees, blockEntry, ha.generation, ha.slot, ha.idLow, ha.idHigh]
  · simp [metadataAgrees, blockEntry, ha.raw_le, ha.stored_le, ha.records, ha.times, ha.compression,
      UInt32.add_comm]
  · rw [hpay]
    exact hf.crc

/-- The entries of a chain read, if its payloads decode. -/
theorem Chain.reads {env : Env} (g : Geometry env) {m : Image} {p : PartitionState} {limit : Nat}
    {st st' : ScanState} {fs : List (BlockHeader × Bytes)} (hl : limit ≤ env.indexBegin)
    (hc : Chain env m p.header limit st fs st')
    (hdec : ∀ f ∈ fs, ∃ raw, decodePayload env f.1 f.2 = .ok raw) :
    AllRead env m p (chainEntries st.cursor fs) := by
  induction hc with
  | nil st => exact fun e he => by cases he
  | @cons st st' b x fs hf hc ih =>
    have hsize := Geometry.partitionSize_lt env
    have hindex := g.indexBegin_add
    have hin := hf.inside
    obtain ⟨hb, hpay⟩ := hf.blockAt (by omega)
    obtain ⟨raw, hraw⟩ := hdec _ (List.mem_cons_self ..)
    intro e he
    rcases List.mem_cons.mp he with rfl | he
    · refine ⟨blockMetadata env p (blockEntry st.cursor b) b, raw, ?_⟩
      rw [blockOutcome_blockAt hb, hpay, hraw]
      rfl
    · exact ih (fun f hf => hdec f (List.mem_cons_of_mem _ hf)) e he

theorem acceptFooter_indexSize {env : Env} {h : PartitionHeader} {bs : Bytes} {f : PartitionFooter}
    (hf : acceptFooter env h bs = .ok f) :
    f.indexSize.toNat = f.blockCount.toNat * indexEntryEncodedSize := by
  unfold acceptFooter at hf
  obtain ⟨f', _, hf⟩ := bind_ok_inv hf
  split at hf
  · cases hf
  · rename_i hc
    cases hf
    push Not at hc
    exact hc.2.2.2.2.2.2.2.2.2.1

@[simp] theorem scannedState_activeIndex (h : PartitionHeader) (scan : Scan) :
    (scannedState h scan).activeIndex = scan.entries := (summarize_fields _).1

@[simp] theorem scannedState_isSealed (h : PartitionHeader) (scan : Scan) :
    (scannedState h scan).isSealed = false := (summarize_fields _).2.2.1

/-! ## Partitions -/

/-- What strict verification leaves of a partition: its index, and a readable block for every
entry. -/
structure VerifiedIndex (env : Env) (m : Image) (p : PartitionState) (es : List IndexEntry) : Prop where
  entries : ∀ e ∈ es, EntryIn env e
  reads : AllRead env m p es
  sequences : es.map (·.sequence) = (List.range es.length).map UInt32.ofNat
  sealed : p.isSealed = true → Rd.run (imageSource m) (loadIndex env p) = .ok es ∧
    es.length = p.footer.blockCount.toNat
  footerless : p.isSealed = false → ∃ fs st, p = openState p.header fs ∧
    es = chainEntries partitionHeaderRegionSize fs ∧ Chain env m p.header env.indexBegin {} fs st

section
variable {env : Env} {m : Image} (g : Geometry env) (hm : env.volume.volumeSize.toNat ≤ m.size)
include g hm

/-- The verified index of a slot. -/
theorem StrictSlot.verified {slot : UInt32} (hs : slot < env.volume.partitionCount)
    (hst : StrictSlot env m slot) {p : PartitionState} (hp : slotState env m slot = some p) :
    ∃ es, VerifiedIndex env m p es := by
  have hh := slotState_header hp
  have hslot := slotState_slot hp
  have hs' : p.header.slot < env.volume.partitionCount := by
    rw [hslot]
    exact hs
  have hh' : slotHeader env m p.header.slot = .ok p.header := by
    rw [hslot]
    exact hh
  obtain ⟨q, hq⟩ := hst.2 _ hh
  simp only [recoverPartition, Rd.run_bind, Rd.run_attempt, Rd.bind_ok, run_readFooter g hm hs'] at hq
  cases hf : slotFooter env m p.header with
  | ok f =>
    -- a sealed partition: the index was loaded and its blocks were read
    have hpe : p = sealedState p.header f := by
      rw [slotState_of_sealed hh hf] at hp
      exact (Option.some.inj hp).symm
    unfold slotFooter at hf
    rw [hf] at hq
    simp only [if_true, Rd.run_bind, Rd.run_pure, verifySealed] at hq
    obtain ⟨u, hv, -⟩ := bind_ok_inv hq
    obtain ⟨es, hes, hv⟩ := bind_ok_inv hv
    obtain ⟨scan, -, hv⟩ := bind_ok_inv hv
    simp only [Rd.run_ite, Rd.run_fail] at hv
    split at hv
    · cases hv
    split at hv
    · cases hv
    split at hv
    · cases hv
    rw [← hpe] at hes hv
    have hsz : p.footer.indexSize.toNat = p.footer.blockCount.toNat * indexEntryEncodedSize := by
      rw [hpe]
      exact acceptFooter_indexSize hf
    obtain ⟨h1, h2, h3⟩ := loadIndex_spec g hsz hes
    refine ⟨es, h1, (run_verifyBlocks g hm hs' hh' es h1).mp hv, ?_, fun _ => ⟨hes, h2⟩, fun ho => ?_⟩
    · have hmap := congrArg (List.map UInt32.ofNat) h3
      rw [List.map_map] at hmap
      rw [← hmap]
      refine List.map_congr_left fun e _ => ?_
      exact (UInt32.ofNat_toNat).symm
    · rw [hpe] at ho
      cases ho
  | error e =>
    have hpe : p = scannedState p.header (slotScan env m p.header) := by
      rw [slotState_of_open hh hf] at hp
      exact (Option.some.inj hp).symm
    have hns : p.isSealed = false := by
      rw [hpe]
      exact (summarize_fields _).2.2.1
    obtain ⟨fs, st, hopen, hch, -⟩ := slotState_open g hm hs hp hns
    unfold slotFooter at hf
    rw [hf] at hq
    simp only [Rd.run_ite, Rd.run_fail, Rd.run_bind, if_true, Rd.run_pure,
      run_scanPartition g hm hs', Rd.bind_ok] at hq
    split at hq
    · cases hq
    rw [← hpe] at hq
    obtain ⟨u, hv, -⟩ := bind_ok_inv hq
    have hidx : p.activeIndex = chainEntries partitionHeaderRegionSize fs := by
      rw [hopen, openState_activeIndex]
    rw [hidx] at hv
    have h1 := hch.entriesIn g (Nat.le_refl _) (Nat.le_refl _)
    refine ⟨chainEntries partitionHeaderRegionSize fs, h1, (run_verifyBlocks g hm hs' hh' _ h1).mp hv, ?_,
      fun hse => ?_, fun _ => ⟨fs, st, hopen, rfl, hch⟩⟩
    · have hseq := hch.sequences (n := 0) rfl
      simp only [Nat.zero_add] at hseq
      rw [hseq]
      simp
    · rw [hns] at hse
      cases hse

/-- The index of a partition without a footer is resident, or a rescan finds it again; only a count
that does not fit 32 bits makes a query doubt the rescan. -/
theorem footerless_acquired {p q : PartitionState} {es : List IndexEntry}
    {fs : List (BlockHeader × Bytes)} {st : ScanState} (hsealed : p.isSealed = false)
    (hopen : p = openState p.header fs) (hes : es = chainEntries partitionHeaderRegionSize fs)
    (hch : Chain env m p.header env.indexBegin {} fs st)
    (hs : p.header.slot < env.volume.partitionCount) (hq : q = p ∨ q = p.cleared) :
    ∃ a, Rd.run (imageSource m) (acquireIndex env q) = .ok a ∧ a.entries = es ∧
      (es.length < 2 ^ 32 → a.invalidPrefix q = false) := by
  have hend : p.dataEnd = st.cursor := by
    rw [hopen, openState_dataEnd]
    exact hch.cursor_eq.symm
  have hqe : q.isSealed = false ∧ q.dataEnd = p.dataEnd ∧ q.header = p.header ∧
      q.blockCount = p.blockCount ∧ (q.activeIndex = es ∨ q.activeIndex = []) := by
    rcases hq with rfl | rfl
    · refine ⟨hsealed, rfl, rfl, rfl, Or.inl ?_⟩
      rw [hopen, openState_activeIndex, hes]
    · simp [PartitionState.cleared, hsealed]
  obtain ⟨hq1, hq2, hq3, hq4, hq5⟩ := hqe
  by_cases hres : q.activeIndex ≠ [] ∨ q.dataEnd = partitionHeaderRegionSize
  · -- the index is resident, or there is no block
    have hqes : q.activeIndex = es := by
      rcases hq5 with hq5 | hq5
      · exact hq5
      · rcases hres with hne | hde
        · exact absurd hq5 hne
        · rw [hq5, hes]
          cases hch with
          | nil => rfl
          | @cons _ _ b x fs hf hc =>
            exfalso
            have h1 := hf.bounds.2
            have h2 := hc.cursor_le
            simp only [ScanState.next, blockHeaderEncodedSize] at h1 h2
            omega
    refine ⟨{ entries := es }, ?_, rfl, fun _ => ?_⟩
    · simp only [acquireIndex, hq1, Bool.false_eq_true, if_false, if_pos hres]
      rw [hqes]
      rfl
    · simp [Acquired.invalidPrefix, hq1]
  · -- the index is rebuilt by a scan up to the end of the data
    have hlow : partitionHeaderRegionSize ≤ st.cursor := hch.cursor_le
    have hup : st.cursor ≤ env.indexBegin := hch.cursor_limit (Nat.le_of_lt g.header_lt_indexBegin)
    have hscan : Rd.run (imageSource m) (scanPartition env q.header q.dataEnd) =
        .ok (st.stop false) := by
      have h0 : st.cursor ≠ 0 := by
        simp only [partitionHeaderRegionSize] at hlow
        omega
      have hnot : ¬ (st.cursor < partitionHeaderRegionSize ∨ st.cursor > env.indexBegin) := by omega
      rw [hq2, hq3, hend]
      simp only [scanPartition, if_neg h0, if_neg hnot]
      refine (hch.narrow (Nat.le_refl _)).scanLoop g hm hs hup ?_ _ (by omega)
      simp only [blockHeaderEncodedSize]
      omega
    have hentries : st.entries = es := by
      rw [hch.entries, hes]
      rfl
    refine ⟨⟨es, false, false, true, st.cursor⟩, ?_, rfl, fun hlt => ?_⟩
    · simp only [acquireIndex, hq1, Bool.false_eq_true, if_false, if_neg hres, Rd.run_bind,
        Rd.run_attempt, hscan, Rd.bind_ok, ScanState.stop, hentries]
      rfl
    · have hcount : q.blockCount.toNat = es.length := by
        rw [hq4, hopen, openState_blockCount, hes, chainEntries_length]
        refine toNat_ofNat32 ?_
        rw [hes, chainEntries_length] at hlt
        exact hlt
      simp [Acquired.invalidPrefix, hq1, hq2, hend, hcount]

/-- **The index a query acquires is the verified one**, resident, loaded or rescanned; only a
count that does not fit 32 bits makes a query doubt a rescan. -/
theorem VerifiedIndex.acquired {p q : PartitionState} {es : List IndexEntry}
    (h : VerifiedIndex env m p es) (hs : p.header.slot < env.volume.partitionCount)
    (hq : q = p ∨ q = p.cleared) :
    ∃ a, Rd.run (imageSource m) (acquireIndex env q) = .ok a ∧ a.entries = es ∧
      (es.length < 2 ^ 32 → a.invalidPrefix q = false) := by
  cases hsealed : p.isSealed with
  | true =>
    have hqp : q = p := by
      rcases hq with rfl | rfl
      · rfl
      · simp [PartitionState.cleared, hsealed]
    subst hqp
    obtain ⟨hload, hlen⟩ := h.sealed hsealed
    refine ⟨{ entries := es }, ?_, rfl, fun _ => ?_⟩
    · simp only [acquireIndex, hsealed, if_true, Rd.run_bind, Rd.run_attempt, hload, Rd.bind_ok]
      rfl
    · simp [Acquired.invalidPrefix, hlen]
  | false =>
    obtain ⟨fs, st, hopen, hes, hch⟩ := h.footerless hsealed
    exact footerless_acquired g hm hsealed hopen hes hch hs hq

/-- A partition without a footer passes if its payloads decode. -/
theorem strictSlot_footerless {slot : UInt32} (hs : slot < env.volume.partitionCount)
    {h : PartitionHeader} (hh : slotHeader env m slot = .ok h) {e : Status}
    (hf : slotFooter env m h = .error e) (hcode : e.code ≠ .unsupported)
    {fs : List (BlockHeader × Bytes)} {st : ScanState}
    (hch : Chain env m h env.indexBegin {} fs st) (hstuck : Stuck env m h env.indexBegin st)
    (hdec : ∀ f ∈ fs, ∃ raw, decodePayload env f.1 f.2 = .ok raw) :
    StrictSlot env m slot ∧ (slotScan env m h).entries = chainEntries partitionHeaderRegionSize fs := by
  have hslot := slotHeader_slot hh
  have hs' : h.slot < env.volume.partitionCount := by
    rw [hslot]
    exact hs
  have hentries : (slotScan env m h).entries = chainEntries partitionHeaderRegionSize fs := by
    obtain ⟨fs', st', corrupt, hrun, hch', hstuck'⟩ := scanPartition_run g hm hs' 0
      env.indexBegin (if_pos rfl) (Nat.le_of_lt g.header_lt_indexBegin) (Nat.le_refl _)
    obtain ⟨rfl, rfl⟩ := hch.eq_of_stuck hstuck hch' hstuck'
    rw [slotScan_of_run hrun]
    exact hch'.entries
  refine ⟨⟨slotDamaged_of_ok hh, fun h' hh' => ?_⟩, hentries⟩
  obtain rfl : h = h' := Except.ok.inj (hh.symm.trans hh')
  refine ⟨scannedState h (slotScan env m h), ?_⟩
  have hhead : slotHeader env m (scannedState h (slotScan env m h)).header.slot =
      .ok (scannedState h (slotScan env m h)).header := by
    rw [scannedState_header, hslot]
    exact hh
  have hverify : Rd.run (imageSource m) (verifyBlocks env (scannedState h (slotScan env m h))
      (scannedState h (slotScan env m h)).activeIndex) = .ok () := by
    have hin := hch.entriesIn g (Nat.le_refl _) (Nat.le_refl _)
    rw [scannedState_activeIndex, hentries]
    refine (run_verifyBlocks g hm (by rw [scannedState_header]; exact hs') hhead _ hin).mpr ?_
    have hch' : Chain env m (scannedState h (slotScan env m h)).header env.indexBegin {} fs st := by
      rw [scannedState_header]
      exact hch
    exact hch'.reads g (Nat.le_refl _) hdec
  unfold slotFooter at hf
  have hio : e.isIo = false := (codes_acceptFooter env h _ e hf).not_io
  have hun : (e.code == .unsupported) = false := beq_eq_false_iff_ne.mpr hcode
  simp only [recoverPartition, Rd.run_bind, Rd.run_attempt, Rd.bind_ok, run_readFooter g hm hs', hf,
    hio, hun, Bool.or_self, Rd.run_ite, if_true, run_scanPartition g hm hs', hverify, Rd.run_pure]
  rfl

omit g hm in
/-- A slot without a header and without evidence passes. -/
theorem strictSlot_empty {slot : UInt32} {e : Status} (hh : slotHeader env m slot = .error e)
    (hev : slotEvidence env m slot = false) : StrictSlot env m slot := by
  refine ⟨(slotDamaged_of_error hh).trans hev, fun h hh' => ?_⟩
  rw [hh] at hh'
  cases hh'

theorem StrictSlot.not_fails {slot : UInt32} (hs : slot < env.volume.partitionCount)
    (hst : StrictSlot env m slot) : ¬ SlotFails env m slot := by
  cases hh : slotHeader env m slot with
  | error e =>
    rw [slotFails_of_error hh, ← slotDamaged_of_error hh, hst.1]
    exact fun h => Bool.false_ne_true h.2
  | ok h =>
    rw [slotFails_of_ok hh]
    rintro ⟨e, hf, hcode⟩
    obtain ⟨p, hp⟩ := hst.2 h hh
    have hs' : h.slot < env.volume.partitionCount := by
      rw [slotHeader_slot hh]
      exact hs
    have hp' := recoverPartition_strict hp
    rw [run_recoverPartition g hm hs', slotRecovered, hf] at hp'
    simp only [hcode, if_true] at hp'
    cases hp'

/-- A strict open succeeds if every slot passes verification. -/
theorem recover_strict_isOk (hv : Rd.run (imageSource m) readVolumeHeader = .ok env.volume)
    {o : OpenOptions} (ho : o.codecs = env.codecs) (hst : o.verifyPayloadsOnOpen = true)
    {random : Except Status (UInt64 × UInt64)} {id : UInt64 × UInt64}
    (hid : prepareWriter env o random = .ok id)
    (hslots : ∀ slot < env.volume.partitionCount, StrictSlot env m slot)
    (hgen : GenerationsOk (slotStates env m)) :
    Rd.run (imageSource m) (recover m.size o random) = .ok (openedStore env m o id) := by
  have henv : ({ volume := env.volume, codecs := o.codecs } : Env) = env := by rw [ho]
  obtain ⟨r, hr⟩ := recoverSlots_ok g hm (slotList env) (fun _ h => mem_slotList.mp h) [] (r := {})
    rfl (fun slot hs => (hslots slot (mem_slotList.mp hs)).not_fails g hm (mem_slotList.mp hs)) hgen
  have hr' := (recoverSlots_strict_iff g hm (slotList env) (fun _ h => mem_slotList.mp h) {} r).mpr
    ⟨hr, fun slot hs => hslots slot (mem_slotList.mp hs)⟩
  have hrun : Rd.run (imageSource m) (recover m.size o random) = .ok (recoveredStore env o id r) := by
    simp only [recover, Rd.run_bind, Rd.run_lift, Rd.run_pure, hv, Rd.bind_ok,
      validateVolumeGeometry_ok g hm, henv, hid, hst, hr']
  obtain ⟨⟨id', hid', hs⟩, -⟩ := recover_ok g hm
    (fun w hw => Except.ok.inj (hw.symm.trans hv)) ho hrun
  rw [hid] at hid'
  cases hid'
  rw [hrun, hs]

end

end TFDB
