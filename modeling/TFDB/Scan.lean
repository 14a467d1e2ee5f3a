import TFDB.Protocol

/-!
# What a scan sees

`FrameAt` says that a scan in a given state accepts the frame it finds in an image, `Chain`
that it accepts one frame after the other.  `scanPartition_run` is the specification of the
scan: it returns the entries of the longest chain from the start of the data region.

Chains are determined by the image: `Chain.prefix` compares two chains from the same state,
`Chain.congr` moves a chain to another image that agrees on its frames.
-/

set_option autoImplicit false

namespace TFDB

open ByteLib

/-! ## Reads of an image -/

theorem imageSource_ok {m : Image} {off n : Nat} (h : off + n ≤ m.size) :
    imageSource m off n = .ok (m.window off n) := by
  unfold imageSource
  rw [if_neg (by omega)]

section
variable {env : Env} {m : Image} (g : Geometry env) (hm : env.volume.volumeSize.toNat ≤ m.size)
include g hm

/-- Every window inside a slot can be read. -/
theorem slot_read {slot : UInt32} (hs : slot < env.volume.partitionCount) {o n : Nat}
    (h : o + n ≤ env.partitionSize) :
    imageSource m (env.partitionBase slot + o) n = .ok (m.window (env.partitionBase slot + o) n) := by
  have := g.slot_end hs
  exact imageSource_ok (by omega)

theorem run_readPartitionHeader {slot : UInt32} (hs : slot < env.volume.partitionCount) :
    Rd.run (imageSource m) (readPartitionHeader env slot) =
      acceptPartitionHeader env slot
        (m.window (env.partitionBase slot) partitionHeaderEncodedSize) := by
  have hroom := g.room
  have := slot_read g hm hs (o := 0) (n := partitionHeaderEncodedSize)
    (by simp only [partitionHeaderEncodedSize, partitionHeaderRegionSize] at *; omega)
  simp only [Nat.add_zero] at this
  simp only [readPartitionHeader, Rd.run_bind, Rd.run_readExact, this, Rd.run_lift, Rd.bind_ok]

theorem run_readFooter {h : PartitionHeader} (hs : h.slot < env.volume.partitionCount) :
    Rd.run (imageSource m) (readFooter env h) =
      acceptFooter env h
        (m.window (env.partitionBase h.slot + env.footerOffset) partitionFooterEncodedSize) := by
  have hsum := g.indexBegin_add
  have hfo := g.footerOffset_eq
  have := slot_read g hm hs (o := env.footerOffset) (n := partitionFooterEncodedSize)
    (by simp only [partitionFooterEncodedSize, partitionFooterRegionSize] at *; omega)
  simp only [readFooter, Rd.run_bind, Rd.run_readExact, this, Rd.run_lift, Rd.bind_ok]

end

/-! ## Frames and chains -/

/-- The checks of the scan, one by one. -/
structure Accepted (env : Env) (h : PartitionHeader) (limit : Nat) (st : ScanState)
    (b : BlockHeader) : Prop where
  generation : b.generation = h.generation
  slot : b.slot = h.slot
  idLow : b.volumeIdLow = env.volume.volumeIdLow
  idHigh : b.volumeIdHigh = env.volume.volumeIdHigh
  previousHigh : b.previousWriterIdHigh = st.expectedWriterHigh
  previousLow : b.previousWriterIdLow = st.expectedWriterLow
  sequence : b.sequence = st.expectedSequence
  records : b.recordCount ≠ 0
  times : b.minTimeNs ≤ b.maxTimeNs
  stored_le : b.storedSize ≤ env.volume.maxBlockPayload
  raw_le : b.rawSize ≤ env.volume.maxBlockPayload
  compression : compressionAgrees h.options b = true
  span_aligned : b.frameSpan.toNat % env.quantum = 0
  cursor_aligned : st.cursor % env.quantum = 0
  span_le : b.frameSpan.toNat ≤ limit - st.cursor
  span : alignUp (blockHeaderEncodedSize + b.storedSize.toNat) env.quantum = some b.frameSpan.toNat

theorem scanAccepts_iff {env : Env} {h : PartitionHeader} {limit : Nat} {st : ScanState}
    {b : BlockHeader} : scanAccepts env h limit st b = true ↔ Accepted env h limit st b := by
  simp only [scanAccepts, Bool.and_eq_true, beq_iff_eq, bne_iff_ne, decide_eq_true_eq]
  constructor
  · rintro ⟨⟨⟨⟨⟨⟨⟨⟨⟨⟨⟨⟨⟨⟨⟨h1, h2⟩, h3⟩, h4⟩, h5⟩, h6⟩, h7⟩, h8⟩, h9⟩, h10⟩, h11⟩, h12⟩, h13⟩, h14⟩,
      h15⟩, h16⟩
    exact ⟨h1, h2, h3, h4, h5, h6, h7, h8, h9, h10, h11, h12, h13, h14, h15, h16⟩
  · rintro ⟨h1, h2, h3, h4, h5, h6, h7, h8, h9, h10, h11, h12, h13, h14, h15, h16⟩
    exact ⟨⟨⟨⟨⟨⟨⟨⟨⟨⟨⟨⟨⟨⟨⟨h1, h2⟩, h3⟩, h4⟩, h5⟩, h6⟩, h7⟩, h8⟩, h9⟩, h10⟩, h11⟩, h12⟩, h13⟩, h14⟩,
      h15⟩, h16⟩

section
variable (env : Env) (m : Image) (h : PartitionHeader) (limit : Nat)

/-- A scan in state `st` accepts block `b`, found in the image with this payload. -/
structure FrameAt (st : ScanState) (b : BlockHeader) (payload : Bytes) : Prop where
  inside : st.cursor + blockHeaderEncodedSize ≤ limit
  header : decodeBlockHeader (m.window (env.partitionBase h.slot + st.cursor)
    blockHeaderEncodedSize) = .ok b
  accepted : Accepted env h limit st b
  payload_eq : m.window (env.partitionBase h.slot + st.cursor + blockHeaderEncodedSize)
    b.storedSize.toNat = payload
  crc : crc32c payload = b.payloadCrc

/-- A scan accepts these frames one after the other. -/
inductive Chain : ScanState → List (BlockHeader × Bytes) → ScanState → Prop
  | nil (st : ScanState) : Chain st [] st
  | cons {st st' : ScanState} {b : BlockHeader} {payload : Bytes} {fs : List (BlockHeader × Bytes)}
      (hf : FrameAt env m h limit st b payload) (hc : Chain (st.next b) fs st') :
      Chain st ((b, payload) :: fs) st'

/-- No further frame is accepted. -/
def Stuck (st : ScanState) : Prop := ∀ b payload, ¬ FrameAt env m h limit st b payload

end

section
variable {env : Env} {m : Image} {h : PartitionHeader} {limit : Nat} {st st' : ScanState}
  {fs : List (BlockHeader × Bytes)}

theorem FrameAt.unique {b b' : BlockHeader} {x x' : Bytes} (hf : FrameAt env m h limit st b x)
    (hf' : FrameAt env m h limit st b' x') : b = b' ∧ x = x' := by
  have hb : b = b' := Except.ok.inj (hf.header.symm.trans hf'.header)
  subst hb
  exact ⟨rfl, hf.payload_eq.symm.trans hf'.payload_eq⟩

/-- The frame, its gap included, ends within the limit, and it is not empty. -/
theorem FrameAt.bounds {b : BlockHeader} {x : Bytes} (hf : FrameAt env m h limit st b x) :
    st.cursor + b.frameSpan.toNat ≤ limit ∧ blockHeaderEncodedSize + b.storedSize.toNat ≤
      b.frameSpan.toNat := by
  obtain ⟨-, h1, -, -⟩ := alignUp_spec hf.accepted.span
  have h2 := hf.accepted.span_le
  have h3 := hf.inside
  exact ⟨by omega, h1⟩

/-- The entries a chain adds. -/
def chainEntries : Nat → List (BlockHeader × Bytes) → List IndexEntry
  | _, [] => []
  | cursor, (b, _) :: fs => blockEntry cursor b :: chainEntries (cursor + b.frameSpan.toNat) fs

theorem Chain.entries (hc : Chain env m h limit st fs st') :
    st'.entries = st.entries ++ chainEntries st.cursor fs := by
  induction hc with
  | nil st => simp [chainEntries]
  | cons hf hc ih => simp [ih, ScanState.next, chainEntries]

theorem Chain.cursor_le (hc : Chain env m h limit st fs st') : st.cursor ≤ st'.cursor := by
  induction hc with
  | nil st => exact Nat.le_refl _
  | cons hf hc ih =>
    simp only [ScanState.next] at ih
    omega

theorem Chain.cursor_limit (hc : Chain env m h limit st fs st') (hst : st.cursor ≤ limit) :
    st'.cursor ≤ limit := by
  induction hc with
  | nil st => exact hst
  | cons hf hc ih => exact ih hf.bounds.1

theorem Chain.append {st'' : ScanState} {gs : List (BlockHeader × Bytes)}
    (hc : Chain env m h limit st fs st') (hc' : Chain env m h limit st' gs st'') :
    Chain env m h limit st (fs ++ gs) st'' := by
  induction hc with
  | nil st => exact hc'
  | cons hf hc ih => exact .cons hf (ih hc')

theorem Chain.snoc {b : BlockHeader} {x : Bytes} (hc : Chain env m h limit st fs st')
    (hf : FrameAt env m h limit st' b x) : Chain env m h limit st (fs ++ [(b, x)]) (st'.next b) :=
  hc.append (.cons hf (.nil _))

/-- A chain is a prefix of every chain from the same state that ends stuck. -/
theorem Chain.prefix {gs : List (BlockHeader × Bytes)} {su : ScanState}
    (hc : Chain env m h limit st fs st') (hc' : Chain env m h limit st gs su)
    (hs : Stuck env m h limit su) : ∃ rest, gs = fs ++ rest ∧ Chain env m h limit st' rest su := by
  induction hc generalizing gs with
  | nil st => exact ⟨gs, rfl, hc'⟩
  | cons hf hc ih =>
    cases hc' with
    | nil st => exact absurd hf (hs _ _)
    | cons hf' hc' =>
      obtain ⟨rfl, rfl⟩ := hf.unique hf'
      obtain ⟨rest, rfl, hrest⟩ := ih hc'
      exact ⟨rest, rfl, hrest⟩

theorem Chain.eq_of_stuck {gs : List (BlockHeader × Bytes)} {su : ScanState}
    (hc : Chain env m h limit st fs st') (hs : Stuck env m h limit st')
    (hc' : Chain env m h limit st gs su) (hs' : Stuck env m h limit su) : fs = gs ∧ st' = su := by
  obtain ⟨rest, rfl, hr⟩ := hc.prefix hc' hs'
  cases hr with
  | nil st => exact ⟨by simp, rfl⟩
  | cons hf _ => exact absurd hf (hs _ _)

theorem FrameAt.congr {m' : Image} {b : BlockHeader} {x : Bytes}
    (hf : FrameAt env m h limit st b x)
    (hw : ∀ o, env.partitionBase h.slot + st.cursor ≤ o →
      o < env.partitionBase h.slot + st.cursor + blockHeaderEncodedSize + b.storedSize.toNat →
      m'.byte o = m.byte o) : FrameAt env m' h limit st b x where
  inside := hf.inside
  header := by
    rw [Image.window_congr (b := m) fun o h1 h2 => hw o h1 (by omega)]
    exact hf.header
  accepted := hf.accepted
  payload_eq := by
    rw [Image.window_congr (b := m) fun o h1 h2 => hw o (by omega) h2]
    exact hf.payload_eq
  crc := hf.crc

/-- A chain only depends on the bytes of its frames. -/
theorem Chain.congr {m' : Image} (hc : Chain env m h limit st fs st')
    (hw : ∀ o, env.partitionBase h.slot + st.cursor ≤ o →
      o < env.partitionBase h.slot + st'.cursor → m'.byte o = m.byte o) :
    Chain env m' h limit st fs st' := by
  induction hc with
  | nil st => exact .nil st
  | cons hf hc ih =>
    have h1 := hf.bounds.2
    have h2 := hc.cursor_le
    simp only [ScanState.next] at h2 ih
    refine .cons (hf.congr fun o ho ho' => hw o ho (by omega)) (ih fun o ho ho' => hw o (by omega) ho')

end

/-! ## The scan -/

section
variable {env : Env} {m : Image} (g : Geometry env) (hm : env.volume.volumeSize.toNat ≤ m.size)
  {h : PartitionHeader} (hs : h.slot < env.volume.partitionCount) {limit : Nat}
  (hl : limit ≤ env.indexBegin)
include g hm hs hl

theorem scanLoop_run (steps : Nat) (st : ScanState) (hst : st.cursor ≤ limit)
    (hsteps : limit < steps + st.cursor) :
    ∃ fs st' corrupt, Rd.run (imageSource m) (scanLoop env h limit steps st) = .ok (st'.stop corrupt) ∧
      Chain env m h limit st fs st' ∧ Stuck env m h limit st' := by
  have hsum := g.indexBegin_add
  induction steps generalizing st with
  | zero => omega
  | succ steps ih =>
    simp only [scanLoop, Rd.run_ite]
    split
    · rename_i hin
      have hread : imageSource m (env.partitionBase h.slot + st.cursor) blockHeaderEncodedSize =
          .ok (m.window (env.partitionBase h.slot + st.cursor) blockHeaderEncodedSize) :=
        slot_read g hm hs (by omega)
      simp only [Rd.run_bind, Rd.run_readExact, hread, Rd.bind_ok]
      cases hd : decodeBlockHeader (m.window (env.partitionBase h.slot + st.cursor)
          blockHeaderEncodedSize) with
      | error e =>
        refine ⟨[], st, true, rfl, .nil st, fun b x hf => ?_⟩
        rw [hf.header] at hd
        cases hd
      | ok b =>
        simp only [Rd.run_ite]
        split
        · rename_i hacc
          have ha := scanAccepts_iff.mp hacc
          obtain ⟨-, h1, -, -⟩ := alignUp_spec ha.span
          have h2 := ha.span_le
          have hread2 : imageSource m
              (env.partitionBase h.slot + st.cursor + blockHeaderEncodedSize) b.storedSize.toNat =
              .ok (m.window (env.partitionBase h.slot + st.cursor + blockHeaderEncodedSize)
                b.storedSize.toNat) := by
            rw [Nat.add_assoc]
            exact slot_read g hm hs (by omega)
          simp only [Rd.run_bind, Rd.run_readExact, hread2, Rd.bind_ok, Rd.run_ite]
          split
          · rename_i hcrc
            refine ⟨[], st, true, rfl, .nil st, fun b' x hf => ?_⟩
            have hb : b' = b := Except.ok.inj (hf.header.symm.trans hd)
            subst hb
            have := hf.crc
            rw [← hf.payload_eq] at this
            exact hcrc this
          · rename_i hcrc
            have hf : FrameAt env m h limit st b _ :=
              ⟨hin, hd, ha, rfl, not_not.mp hcrc⟩
            have hb := hf.bounds
            simp only [blockHeaderEncodedSize] at hb
            obtain ⟨fs, st', corrupt, hrun, hc, hstuck⟩ := ih (st.next b) hb.1
              (by simp only [ScanState.next]; omega)
            exact ⟨_, st', corrupt, hrun, .cons hf hc, hstuck⟩
        · rename_i hacc
          refine ⟨[], st, true, rfl, .nil st, fun b' x hf => ?_⟩
          have hb : b' = b := Except.ok.inj (hf.header.symm.trans hd)
          subst hb
          exact hacc (scanAccepts_iff.mpr hf.accepted)
    · rename_i hin
      exact ⟨[], st, false, rfl, .nil st, fun b x hf => hin hf.inside⟩

end

/-- **The scan returns the longest chain** from the start of the data region. -/
theorem scanPartition_run {env : Env} {m : Image} (g : Geometry env)
    (hm : env.volume.volumeSize.toNat ≤ m.size) {h : PartitionHeader}
    (hs : h.slot < env.volume.partitionCount) (scanLimit limit : Nat)
    (hlim : (if scanLimit = 0 then env.indexBegin else scanLimit) = limit)
    (h1 : partitionHeaderRegionSize ≤ limit) (h2 : limit ≤ env.indexBegin) :
    ∃ fs st corrupt, Rd.run (imageSource m) (scanPartition env h scanLimit) = .ok (st.stop corrupt) ∧
      Chain env m h limit {} fs st ∧ Stuck env m h limit st := by
  have hnot : ¬ (limit < partitionHeaderRegionSize ∨ limit > env.indexBegin) := by omega
  simp only [scanPartition, hlim, if_neg hnot]
  exact scanLoop_run g hm hs h2 _ _ h1 (by omega)

end TFDB
