import TFDB.Verify
import TFDB.Burst

/-!
# The index of a sealed partition

The index region of a sealed partition only says what its blocks say: the index loads as the entries
a scan of the blocks returns, and where its checksum fails a query scans the blocks instead and
reports one gap.

* `IndexBroken` — bytes of the index region were changed and the checksum of the index fails;
* `OnMedia.partitionEvents_broken` — the events of such a partition;
* `IndexBroken.recover` — an open that does not verify payloads reads nothing of an index;
* `Clean.footersKept` — a footer of the log was written with the entries of its partition;
* `index_derived` — for every sealed partition, every store and every query.
-/

set_option autoImplicit false

namespace TFDB

open ByteLib Writer

/-! ## A broken index -/

/-- The partition as if it had not been sealed. -/
def RingPartition.unsealed (q : RingPartition) : RingPartition := { q with isSealed := false }

/-- Bytes of the index region were changed, and the checksum of the index fails. -/
structure IndexBroken (env : Env) (q : RingPartition) (m m' : Image) : Prop where
  size : m'.size = m.size
  outside : ∀ a, a < env.partitionBase q.header.slot + env.indexBegin ∨
    env.partitionBase q.header.slot + env.footerOffset ≤ a → m'.byte a = m.byte a
  broken : crc32c (m'.window (env.partitionBase q.header.slot + env.indexBegin)
    (q.footer env).indexSize.toNat) ≠ (q.footer env).indexCrc

/-- The gap of the partition. -/
def brokenGap (q : RingPartition) : BlockEvent where
  kind := .corruptGap
  metadata := { partitionSlot := q.header.slot, partitionGeneration := q.header.generation }
  detail := ⟨.corrupt, "sealed partition has invalid data/index prefix"⟩

section
variable {env : Env} {m m' : Image} {q : RingPartition}

theorem RingPartition.Sound.unsealed (h : q.Sound env) : q.unsealed.Sound env :=
  ⟨h.made, h.fits, h.decodes⟩

/-- The blocks do not lie in the index region. -/
theorem IndexBroken.unsealed (hb : IndexBroken env q m m') (g : Geometry env)
    (h : OnMedia env m q) (hsound : q.Sound env) : OnMedia env m' q.unsealed := by
  have hopen : OnMedia env m q.unsealed := by
    refine ⟨h.window, h.chain, fun hs => ?_, fun hs => ?_⟩
    · cases hs
    · cases hs
  refine hopen.congr g hsound.unsealed ?_
  intro a ha1 ha2 ha3
  apply hb.outside
  have hend : q.unsealed.dataEnd ≤ env.indexBegin := (hopen.dataEnd_le g).2
  have hhead := g.header_lt_indexBegin
  have hslot : q.unsealed.header.slot = q.header.slot := rfl
  rw [hslot] at ha1 ha2 ha3
  rcases ha3 with ha3 | ha3 | ha3
  · left
    omega
  · left
    omega
  · cases ha3

/-- Nor do the structures of another partition. -/
theorem IndexBroken.other (hb : IndexBroken env q m m') (g : Geometry env) {r : RingPartition}
    (hr : OnMedia env m r) (hsound : r.Sound env) (hne : r.header.slot ≠ q.header.slot) :
    OnMedia env m' r := by
  refine hr.congr g hsound ?_
  intro a ha1 ha2 _
  apply hb.outside
  have hoff : env.footerOffset ≤ env.partitionSize := Nat.sub_le _ _
  rcases Geometry.slots_disjoint env hne with hd | hd
  · left
    omega
  · right
    omega

/-- A broken index is not empty. -/
theorem IndexBroken.indexSize (hb : IndexBroken env q m m') (h : OnMedia env m q)
    (hsound : q.Sound env) : (q.footer env).indexSize ≠ 0 := by
  intro h0
  apply hb.broken
  have hsize := (h.sealedBy hsound).indexSize
  rw [h0] at hsize
  have hframes : q.frames.length = 0 := by
    have : q.frames.length * indexEntryEncodedSize = 0 := hsize.symm
    simp only [indexEntryEncodedSize] at this
    omega
  have hnil : q.frames = [] := List.length_eq_zero_iff.mp hframes
  rw [h0, RingPartition.footer, sealFooter, openState_activeIndex, hnil]
  rfl

/-- A changed word breaks the index. -/
theorem OnMedia.indexBroken (g : Geometry env) (h : OnMedia env m q) (hsound : q.Sound env)
    (hs : q.isSealed = true) {o : Nat} {y : Bytes} (h4 : y.length ≤ 4)
    (hin : o + y.length ≤ (q.footer env).indexSize.toNat)
    (hne : m.window (env.partitionBase q.header.slot + env.indexBegin + o) y.length ≠ y) :
    IndexBroken env q m (m.write (env.partitionBase q.header.slot + env.indexBegin + o) y) := by
  have hsize := (h.sealedBy hsound).indexSize
  have hlen : (q.footer env).indexSize.toNat = (encodeIndex q.entries).length := by
    rw [hsize, encodeIndex_length, RingPartition.entries, chainEntries_length]
    rfl
  have hsealed : crc32c (encodeIndex q.entries) = (q.footer env).indexCrc := by
    rw [RingPartition.footer, sealFooter, openState_activeIndex]
    rfl
  have hcrc : (q.footer env).indexCrc =
      crc32c (m.window (env.partitionBase q.header.slot + env.indexBegin)
        (q.footer env).indexSize.toNat) := by
    rw [hlen, h.index hs, hsealed]
  refine ⟨Image.write_size .., fun a ha => Image.write_byte_out ?_, fun heq => hne ?_⟩
  · have hfits := hsound.fits
    obtain ⟨-, -, -, -, -, -, -, -, hoff, -⟩ := slot_parts g
    rw [RingPartition.frames_length] at hsize
    omega
  · rw [hcrc, Image.window_write_inside _ hin] at heq
    have hsame := crc32c_put h4 (by rw [Image.window_length]; exact hin) heq
    rw [Image.slice_window _ hin] at hsame
    exact hsame

variable (g : Geometry env) (hm : env.volume.volumeSize.toNat ≤ m.size) {p : PartitionState}
  (h : OnMedia env m q) (hsound : q.Sound env) (hp : StateOf env q p) (hs : q.isSealed = true)
  (hb : IndexBroken env q m m')
include g hm h hsound hp hs hb

theorem OnMedia.loadIndex_broken :
    Rd.run (imageSource m') (TFDB.loadIndex env p) = failWith .corrupt "partition index CRC mismatch" := by
  have hm' : env.volume.volumeSize.toNat ≤ m'.size := by
    rw [hb.size]
    exact hm
  have hseal := h.sealedBy hsound
  have hsealed : ¬ ¬ p.isSealed = true := by
    rw [hp.isSealed, hs]
    exact fun h => h rfl
  have hoff : (q.footer env).indexOffset.toNat = env.indexBegin := by
    have hsum := g.indexBegin_add
    have hsz := Geometry.partitionSize_lt env
    exact UInt64.toNat_ofNat_of_lt' (show env.indexBegin < 2 ^ 64 by omega)
  have hread : imageSource m' (env.partitionBase p.header.slot + (q.footer env).indexOffset.toNat)
      (q.footer env).indexSize.toNat = .ok (m'.window (env.partitionBase q.header.slot +
        env.indexBegin) (q.footer env).indexSize.toNat) := by
    rw [hoff, hp.slot]
    refine slot_read g hm' (hsound.made.slotOf.lt g) ?_
    have hsum := g.indexBegin_add
    have hsize := hseal.indexSize
    have hn := hseal.length_lt
    simp only [indexEntryEncodedSize] at hsize
    omega
  rw [TFDB.loadIndex, if_neg hsealed, hp.closed hs, if_neg (hb.indexSize h hsound), Rd.run_bind,
    Rd.run_readExact, hread, Rd.bind_ok, Rd.run_lift, acceptIndex, if_pos hb.broken]

/-- The entries come from a scan that the footer bounds. -/
theorem OnMedia.acquire_broken : Rd.run (imageSource m') (acquireIndex env p) =
    .ok ⟨q.entries, false, true, false, (q.footer env).dataEnd.toNat⟩ := by
  have hm' : env.volume.volumeSize.toNat ≤ m'.size := by
    rw [hb.size]
    exact hm
  have hp1 : p.isSealed = true := by rw [hp.isSealed, hs]
  have hscan : Rd.run (imageSource m') (scanPartition env p.header (q.footer env).dataEnd.toNat) =
      .ok ⟨q.entries, (q.footer env).dataEnd.toNat, false⟩ :=
    (hb.unsealed g h hsound).scanSealed g hm' hsound.unsealed hp.slot hp.generation hp.options
  rw [acquireIndex, if_pos hp1, Rd.run_bind, Rd.run_attempt,
    h.loadIndex_broken g hm hsound hp hs hb]
  simp only [failWith, Rd.bind_ok, rescanAfter, ne_eq, not_true, if_false, hp1, if_true,
    hp.closed hs, Rd.run_bind, hscan, Rd.run_pure]

omit g hm h hsound hb in
theorem RingPartition.invalidPrefix_broken :
    (⟨q.entries, false, true, false, (q.footer env).dataEnd.toNat⟩ : Acquired).invalidPrefix p =
      true := by
  have hp1 : p.isSealed = true := by rw [hp.isSealed, hs]
  simp [Acquired.invalidPrefix, hp1]

/-- The events of the partition are what they were, behind one gap. -/
theorem OnMedia.partitionEvents_broken (hfits : 128 + env.maxBlockPayload < 2 ^ 32)
    (hl : env.Lawful) (qy : Query) :
    TFDB.partitionEvents env m' qy p =
      (if qy.selectsPartition p then [brokenGap q] else []) ++ TFDB.partitionEvents env m qy p := by
  have hp1 : p.isSealed = true := by rw [hp.isSealed, hs]
  have hacq := acquired_of_run (h.acquire_broken g hm hsound hp hs hb)
  obtain ⟨st, hc⟩ := (hb.unsealed g h hsound).chain
  have hc : Chain env m' p.header env.indexBegin {} (q.blocks.map RingBlock.frame) st :=
    hc.header_congr hp.slot hp.generation hp.options
  rw [h.partitionEvents g hm hsound hp hfits hl]
  by_cases hsel : qy.selectsPartition p = true
  · obtain ⟨hev, -⟩ := hc.entryEvents g (Nat.le_refl _) (hsound.decodes hl) qy hsel
    have hgap : prefixGap p = brokenGap q := by
      rw [prefixGap, if_pos hp1, gapEvent, hp.slot, hp.generation]
      rfl
    unfold TFDB.partitionEvents
    rw [if_pos hsel, if_pos hsel, hacq, q.invalidPrefix_broken hp hs, if_pos rfl, hgap,
      RingPartition.events, ← blockEvents_congr env hp.slot hp.generation hp.options]
    exact congrArg ([brokenGap q] ++ ·) hev
  · have hnone := h.partitionEvents g hm hsound hp hfits hl qy
    unfold TFDB.partitionEvents at hnone ⊢
    rw [if_neg hsel] at hnone
    rw [if_neg hsel, if_neg hsel, ← hnone]
    rfl

/-- The partition can still be read. -/
theorem OnMedia.readable_broken (hl : env.Lawful) (hv : q.header.options.compressionVersion ≠ 0) :
    Readable env m' p := by
  have hmedia := hb.unsealed g h hsound
  have hrun := h.acquire_broken g hm hsound hp hs hb
  obtain ⟨st, hc⟩ := hmedia.chain
  have hc : Chain env m' p.header env.indexBegin {} q.frames st :=
    hc.header_congr hp.slot hp.generation hp.options
  refine ⟨?_, ⟨q.header.written env, ?_, hp.generation.symm⟩, ⟨_, hrun⟩, ?_⟩
  · rw [hp.slot]
    exact hsound.made.slotOf.lt g
  · rw [hp.slot]
    exact hsound.made.slotHeader g hv hmedia.window
  · rw [acquired_of_run hrun]
    intro e he
    have hin := hc.entriesIn g (Nat.le_refl _) (Nat.le_refl _)
    have hread := hc.reads g (Nat.le_refl _) fun f hf => by
      obtain ⟨k, hk, rfl⟩ := List.mem_map.mp hf
      exact ⟨k.raw, hsound.decodes hl k hk⟩
    obtain ⟨metadata, decoded, ho⟩ := hread e he
    refine ⟨hin e he, fun st hst => ?_⟩
    rw [ho] at hst
    cases hst

end

/-! ## A lazy open does not read an index -/

/-- A window of a slot that does not touch its index region. -/
def OutsideIndex (env : Env) (off n : Nat) : Prop :=
  ∃ (slot : UInt32) (o : Nat), off = env.partitionBase slot + o ∧
    (o + n ≤ env.indexBegin ∨ (env.footerOffset ≤ o ∧ o + n ≤ env.partitionSize))

section
variable {env : Env} (g : Geometry env)
include g

theorem outsideIndex_header (slot : UInt32) :
    OutsideIndex env (env.partitionBase slot) partitionHeaderEncodedSize := by
  have hhead := g.header_lt_indexBegin
  refine ⟨slot, 0, rfl, Or.inl ?_⟩
  simp only [partitionHeaderEncodedSize, partitionHeaderRegionSize] at *
  omega

theorem outsideIndex_footer (slot : UInt32) :
    OutsideIndex env (env.partitionBase slot + env.footerOffset) partitionFooterEncodedSize := by
  obtain ⟨-, -, hlen, -, -, -, -, -, -, hend⟩ := slot_parts g
  refine ⟨slot, env.footerOffset, rfl, Or.inr ⟨Nat.le_refl _, ?_⟩⟩
  omega

omit g in
/-- A scan reads windows of its slot in front of its limit. -/
theorem reads_scanLoop {P : Nat → Nat → Prop} (h : PartitionHeader) {limit : Nat}
    (hP : ∀ o n, o + n ≤ limit → P (env.partitionBase h.slot + o) n) (steps : Nat) (st : ScanState) :
    Rd.Reads P (fun _ => True) (scanLoop env h limit steps st) := by
  induction steps generalizing st with
  | zero => exact Rd.Reads.pure trivial
  | succ steps ih =>
    unfold scanLoop
    refine Rd.Reads.ite (fun hin => ?_) fun _ => Rd.Reads.pure trivial
    refine Rd.Reads.bind (Rd.Reads.readExact (hP st.cursor _ (by omega))) ?_
    intro bytes _
    cases hd : decodeBlockHeader bytes with
    | error e => exact Rd.Reads.pure trivial
    | ok b =>
      refine Rd.Reads.ite (fun hacc => ?_) fun _ => Rd.Reads.pure trivial
      have ha := scanAccepts_iff.mp hacc
      obtain ⟨-, hstored, -, -⟩ := alignUp_spec ha.span
      have hspan := ha.span_le
      have hwin := hP (st.cursor + blockHeaderEncodedSize) b.storedSize.toNat (by omega)
      rw [← Nat.add_assoc] at hwin
      refine Rd.Reads.bind (Rd.Reads.readExact hwin) ?_
      intro payload _
      exact Rd.Reads.ite (fun _ => Rd.Reads.pure trivial) fun _ => ih _

omit g in
theorem reads_scanPartition {P : Nat → Nat → Prop} (h : PartitionHeader) (scanLimit : Nat)
    (hP : ∀ o n, o + n ≤ env.indexBegin → P (env.partitionBase h.slot + o) n) :
    Rd.Reads P (fun _ => True) (scanPartition env h scanLimit) := by
  unfold scanPartition
  refine Rd.Reads.ite (fun _ => Rd.Reads.fail _) fun hin => ?_
  apply reads_scanLoop
  intro o n hle
  exact hP o n (by omega)

theorem reads_readPartitionHeader (slot : UInt32) :
    Rd.Reads (OutsideIndex env) (fun _ => True) (readPartitionHeader env slot) := by
  unfold readPartitionHeader
  refine Rd.Reads.bind (Rd.Reads.readExact (outsideIndex_header g slot)) ?_
  intro bytes _
  exact Rd.Reads.lift fun _ _ => trivial

theorem reads_readFooter (h : PartitionHeader) :
    Rd.Reads (OutsideIndex env) (fun _ => True) (readFooter env h) := by
  unfold readFooter
  refine Rd.Reads.bind (Rd.Reads.readExact (outsideIndex_footer g h.slot)) ?_
  intro bytes _
  exact Rd.Reads.lift fun _ _ => trivial

theorem reads_currentVolumeEvidence (slot : UInt32) :
    Rd.Reads (OutsideIndex env) (fun _ => True) (currentVolumeEvidence env slot) := by
  have hroom : partitionHeaderRegionSize + blockHeaderEncodedSize ≤ env.indexBegin := by
    obtain ⟨span, hspan, hle⟩ := g.span
    obtain ⟨-, hlow, -, -⟩ := alignUp_spec hspan
    have hsum := g.indexBegin_add
    have hfixed := g.room
    omega
  have hblock : OutsideIndex env (env.partitionBase slot + partitionHeaderRegionSize)
      blockHeaderEncodedSize := ⟨slot, partitionHeaderRegionSize, rfl, Or.inl hroom⟩
  unfold currentVolumeEvidence
  refine Rd.Reads.bind (Rd.Reads.readExact (outsideIndex_header g slot)) ?_
  intro raw _
  refine Rd.Reads.ite (fun _ => Rd.Reads.pure trivial) fun _ => ?_
  refine Rd.Reads.ite (fun _ => Rd.Reads.pure trivial) fun _ => ?_
  refine Rd.Reads.bind (Rd.Reads.readExact (outsideIndex_footer g slot)) ?_
  intro footerBytes _
  refine Rd.Reads.bind (Rd.Reads.readExact hblock) ?_
  intro blockBytes _
  exact Rd.Reads.pure trivial

theorem reads_recoverHeader (slot : UInt32) :
    Rd.Reads (OutsideIndex env) (fun _ => True) (recoverHeader env false slot) := by
  unfold recoverHeader
  refine Rd.Reads.bind (Rd.Reads.attempt (reads_readPartitionHeader g slot)) ?_
  intro r _
  cases r with
  | ok h => exact Rd.Reads.pure trivial
  | error st =>
    refine Rd.Reads.ite (fun _ => Rd.Reads.fail _) fun _ => ?_
    refine Rd.Reads.bind (reads_currentVolumeEvidence g slot) ?_
    intro evidence _
    refine Rd.Reads.ite (fun _ => ?_) fun _ => Rd.Reads.pure trivial
    refine Rd.Reads.ite (fun _ => Rd.Reads.fail _) fun _ => ?_
    exact Rd.Reads.pure trivial

theorem reads_recoverPartition (h : PartitionHeader) :
    Rd.Reads (OutsideIndex env) (fun _ => True) (recoverPartition env false h) := by
  unfold recoverPartition
  refine Rd.Reads.bind (Rd.Reads.attempt (reads_readFooter g h)) ?_
  intro r _
  cases r with
  | ok f => exact Rd.Reads.pure trivial
  | error st =>
    refine Rd.Reads.ite (fun _ => Rd.Reads.fail _) fun _ => ?_
    refine Rd.Reads.bind (reads_scanPartition h 0 fun o n hle => ⟨h.slot, o, rfl, Or.inl hle⟩) ?_
    intro scan _
    exact Rd.Reads.pure trivial

theorem reads_recoverSlots (slots : List UInt32) (r : Recovery) :
    Rd.Reads (OutsideIndex env) (fun _ => True) (recoverSlots env false slots r) := by
  induction slots generalizing r with
  | nil => exact Rd.Reads.pure trivial
  | cons slot slots ih =>
    unfold recoverSlots
    refine Rd.Reads.bind (reads_recoverHeader g slot) ?_
    intro found _
    cases found with
    | empty => exact ih _
    | damaged => exact ih _
    | valid h =>
      refine Rd.Reads.ite (fun _ => Rd.Reads.fail _) fun _ => ?_
      refine Rd.Reads.ite (fun _ => Rd.Reads.fail _) fun _ => ?_
      refine Rd.Reads.bind (reads_recoverPartition g h) ?_
      intro p _
      exact ih _

omit g in
theorem reads_readVolumeHeader :
    Rd.Reads (fun off n => off + n ≤ volumePrefixSize) (fun _ => True) readVolumeHeader := by
  unfold readVolumeHeader
  refine Rd.Reads.bind (Rd.Reads.attempt (Rd.Reads.readExact (by decide))) ?_
  intro first _
  refine Rd.Reads.bind (Rd.Reads.attempt (Rd.Reads.readExact (by decide))) ?_
  intro second _
  cases first with
  | ok a =>
    cases second with
    | ok b => exact Rd.Reads.lift fun _ _ => trivial
    | error e => exact Rd.Reads.lift fun _ _ => trivial
  | error e =>
    cases second with
    | ok b => exact Rd.Reads.lift fun _ _ => trivial
    | error e => exact Rd.Reads.fail _

end

section
variable {env : Env} {m m' : Image} {q : RingPartition}

theorem IndexBroken.source (hb : IndexBroken env q m m') {off n : Nat}
    (hw : ∀ a, off ≤ a → a < off + n → a < env.partitionBase q.header.slot + env.indexBegin ∨
      env.partitionBase q.header.slot + env.footerOffset ≤ a) :
    imageSource m' off n = imageSource m off n := by
  have hwin : m'.window off n = m.window off n :=
    Image.window_congr fun a h1 h2 => hb.outside a (hw a h1 h2)
  unfold imageSource
  rw [hb.size, hwin]

/-- An open that does not verify payloads sees the same store. -/
theorem IndexBroken.recover (hb : IndexBroken env q m m') (g : Geometry env)
    (hvol : Rd.run (imageSource m) readVolumeHeader = .ok env.volume) {o : OpenOptions}
    (hlazy : o.verifyPayloadsOnOpen = false) (ho : o.codecs = env.codecs)
    (random : Except Status (UInt64 × UInt64)) :
    Rd.run (imageSource m') (TFDB.recover m'.size o random) =
      Rd.run (imageSource m) (TFDB.recover m.size o random) := by
  have hvol' : Rd.run (imageSource m') readVolumeHeader = .ok env.volume := by
    rw [← hvol]
    refine Rd.run_congr reads_readVolumeHeader fun off n hle => hb.source fun a _ ha => ?_
    have hbase : volumePrefixSize ≤ env.partitionBase q.header.slot := Nat.le_add_right _ _
    left
    omega
  have henv : ({ volume := env.volume, codecs := o.codecs } : Env) = env := by rw [ho]
  have hslots : Rd.run (imageSource m') (recoverSlots env false (slotList env) {}) =
      Rd.run (imageSource m) (recoverSlots env false (slotList env) {}) := by
    refine Rd.run_congr (reads_recoverSlots g (slotList env) {}) ?_
    rintro off n ⟨slot, o, rfl, hpart⟩
    have hoff : env.footerOffset ≤ env.partitionSize := Nat.sub_le _ _
    obtain ⟨-, -, -, -, -, -, -, -, hindex, -⟩ := slot_parts g
    refine hb.source fun a h1 h2 => ?_
    by_cases hslot : slot = q.header.slot
    · subst hslot
      omega
    · rcases Geometry.slots_disjoint env hslot with hd | hd <;> omega
  simp only [TFDB.recover, Rd.run_bind, Rd.run_lift, Rd.run_pure, hvol', hvol, Rd.bind_ok, hb.size,
    henv, hlazy, hslots]

end

/-! ## The footers of the log -/

/-- Every footer of the log was written with the index of its partition. -/
structure FootersKept (d : Disk Item) : Prop where
  entries : ∀ off f es, (off, Item.footer f es) ∈ d.issued → ∀ q ∈ ringOf d.issued,
    f.generation = q.header.generation → es = q.entries
  present : ∀ q ∈ ringOf d.issued, q.isSealed = true →
    ∃ off f es, (off, Item.footer f es) ∈ d.issued ∧ f.generation = q.header.generation

section
variable {env : Env} {prior : Image} {d : Disk Item}

/-- A write to the newest partition. -/
theorem FootersKept.amend (hk : FootersKept d) (hr : RingInv env prior d)
    {older : List RingPartition} {q : RingPartition} (hqs : ringOf d.issued = older ++ [q])
    (ho : q.isSealed = false) {off n : Nat} {i : Item} (q' : RingPartition)
    (hring : ringAfter (older ++ [q]) i = older ++ [q']) (hheader : q'.header = q.header)
    (hnew : ∀ f es, i = .footer f es → f.generation = q.header.generation ∧ es = q'.entries)
    (hclosed : q'.isSealed = true → ∃ f es, i = .footer f es) : FootersKept (d.issue off i n) := by
  have hafter : ringOf (d.issue off i n).issued = older ++ [q'] := by
    rw [Disk.issue_issued, ringOf_snoc, hqs, hring]
  have hq : q ∈ ringOf d.issued := by
    rw [hqs]
    exact List.mem_append_right _ (List.mem_singleton_self _)
  have hold : ∀ r ∈ older, r ∈ ringOf d.issued := by
    intro r hm
    rw [hqs]
    exact List.mem_append_left _ hm
  have horder := hr.order
  rw [hqs] at horder
  constructor
  · intro o f es hm r hr' hgen
    rw [hafter] at hr'
    rw [Disk.issue_issued] at hm
    rcases List.mem_append.mp hm with hm | hm
    · rcases List.mem_append.mp hr' with hr' | hr'
      · exact hk.entries o f es hm r (hold r hr') hgen
      · -- an open partition has no footer yet
        rw [List.mem_singleton.mp hr', hheader] at hgen
        have hs := (hr.footers o f es hm).2.2 q hq hgen
        rw [ho] at hs
        cases hs
    · obtain ⟨-, hi⟩ := Prod.mk.inj (List.mem_singleton.mp hm)
      obtain ⟨hf, hes⟩ := hnew f es hi.symm
      rcases List.mem_append.mp hr' with hr' | hr'
      · have hlt := (horder.last.2 r hr').1
        rw [← hgen, hf] at hlt
        exact absurd hlt (UInt64.lt_irrefl _)
      · rw [List.mem_singleton.mp hr']
        exact hes
  · intro r hr' hs
    rw [hafter] at hr'
    rw [Disk.issue_issued]
    rcases List.mem_append.mp hr' with hr' | hr'
    · obtain ⟨o, f, es, hm, hgen⟩ := hk.present r (hold r hr') hs
      exact ⟨o, f, es, List.mem_append_left _ hm, hgen⟩
    · obtain rfl := List.mem_singleton.mp hr'
      obtain ⟨f, es, rfl⟩ := hclosed hs
      refine ⟨off, f, es, List.mem_append_right _ (List.mem_singleton_self _), ?_⟩
      rw [hheader]
      exact (hnew f es rfl).1

/-- The footer of the newest partition. -/
theorem FootersKept.close (hk : FootersKept d) (hr : RingInv env prior d)
    {older : List RingPartition} {q : RingPartition} (hqs : ringOf d.issued = older ++ [q])
    (ho : q.isSealed = false) {p : PartitionState} (hp : StateOf env q p) {off n : Nat} :
    FootersKept (d.issue off (.footer (sealFooter env p) p.activeIndex) n) := by
  refine hk.amend hr hqs ho q.close (amendLast_append _ _ _) rfl ?_ fun _ => ⟨_, _, rfl⟩
  intro f es hi
  cases hi
  exact ⟨hp.generation, hp.activeIndex ho⟩

/-- A write of the protocol. -/
theorem FootersKept.write (hk : FootersKept d) (hr : RingInv env prior d) {φ φ' : Phase}
    (hφ : RingPhase env d φ) {off : Nat} {i : Item} (h : Phase.Write env φ off i φ') (n : Nat) :
    FootersKept (d.issue off i n) := by
  cases h with
  | @frame c p b payload raw hp hs hf =>
    obtain ⟨hc, older, q, hqs, ho⟩ := hφ
    refine hk.amend hr hqs ho (q.addBlock ⟨b, payload, raw⟩) (amendLast_append _ _ _) rfl ?_ ?_
    · intro f es hi
      cases hi
    · intro hs'
      rw [RingPartition.addBlock_isSealed, ho] at hs'
      cases hs'
  | @index c p hp hs hd hne hfit =>
    obtain ⟨hc, older, q, hqs, ho⟩ := hφ
    refine hk.amend hr hqs ho q rfl rfl ?_ ?_
    · intro f es hi
      cases hi
    · intro hs'
      rw [ho] at hs'
      cases hs'
  | @footer c p hp hs hfit =>
    obtain ⟨hc, older, q, hqs, ho, -⟩ := hφ
    exact hk.close hr hqs ho (hr.active hqs hc hp).1
  | @emptyFooter c p hp hs hd hne =>
    obtain ⟨hc, older, q, hqs, ho⟩ := hφ
    exact hk.close hr hqs ho (hr.active hqs hc hp).1
  | @header c slot generation options ho =>
    obtain ⟨hc, hall, -⟩ := hφ
    have hafter : ringOf (d.issue (env.partitionBase slot)
        (.header (newHeader env slot generation options)) n).issued =
        evict slot (ringOf d.issued) ++ [{ header := newHeader env slot generation options }] := by
      rw [Disk.issue_issued, ringOf_snoc]
      rfl
    have hin {o : Nat} {f : PartitionFooter} {es : List IndexEntry}
        (hm : (o, Item.footer f es) ∈ (d.issue (env.partitionBase slot)
          (.header (newHeader env slot generation options)) n).issued) :
        (o, Item.footer f es) ∈ d.issued := by
      rw [Disk.issue_issued] at hm
      rcases List.mem_append.mp hm with hm | hm
      · exact hm
      · cases (Prod.mk.inj (List.mem_singleton.mp hm)).2
    constructor
    · intro o f es hm r hr' hgen
      rw [hafter] at hr'
      rcases List.mem_append.mp hr' with hr' | hr'
      · exact hk.entries o f es (hin hm) r (mem_evict.mp hr').1 hgen
      · -- the new generation is above every footer
        obtain ⟨q, hq, hle⟩ := (hr.footers o f es (hin hm)).2.1
        rw [hgen, List.mem_singleton.mp hr'] at hle
        exact absurd (hall q hq).2 (UInt64.not_lt.mpr hle)
    · intro r hr' hs
      rw [hafter] at hr'
      rcases List.mem_append.mp hr' with hr' | hr'
      · obtain ⟨o, f, es, hm, hgen⟩ := hk.present r (mem_evict.mp hr').1 hs
        rw [Disk.issue_issued]
        exact ⟨o, f, es, List.mem_append_left _ hm, hgen⟩
      · rw [List.mem_singleton.mp hr'] at hs
        cases hs

/-- The footers of a run without faults. -/
theorem Clean.footersKept {assumed : Disk Item → Prop}
    (hassumed : ∀ d, assumed d → CollisionFreeNow env d) {so : Option Store}
    (h : Clean env prior assumed d so) : FootersKept d := by
  refine (h.kept hassumed (K := fun d _ => FootersKept d) ⟨fun off f es hm => ?_, fun q hq => ?_⟩
    (fun d id g hm hr ha hk => hk) (fun d φ off i φ' g hr hφ hw hk => hk.write hr hφ hw _)
    (fun d φ φ' g hr hφ hf hk => ⟨hk.entries, hk.present⟩) fun d φ hk => hk).1
  · simp [formatProgram, WriteProg.exec] at hm
  · cases hq

end

/-! ## Every store and every query -/

/-- Two media show a caller the same events, but for a gap where those of the partition begin. -/
def OneGap (env : Env) (qs : List RingPartition) (q : RingPartition) (m m' : Image) (s : Store)
    (qy : Query) : Prop :=
  ∃ p ∈ s.partitions, StateOf env q p ∧ ∃ older newer, qs = older ++ q :: newer ∧
    ReadProg.run (imageSource m) (s.query qy) =
      qy.answer (s.corruptSlots.map slotGap ++ ringEvents env qy qs) ∧
    ReadProg.run (imageSource m') (s.query qy) =
      qy.answer (s.corruptSlots.map slotGap ++ (ringEvents env qy older ++
        (if qy.selectsPartition p then [brokenGap q] else []) ++ ringEvents env qy (q :: newer)))

section
variable {env : Env} {m m' : Image} (g : Geometry env)
  (hm : env.volume.volumeSize.toNat ≤ m.size) {qs : List RingPartition}
  (hmedia : ∀ r ∈ qs, OnMedia env m r) (hsound : ∀ r ∈ qs, r.Sound env) (horder : Ordered qs)
  (hfits : env.SpanFits) (hl : env.Lawful) {q : RingPartition} (hq : q ∈ qs)
  (hs : q.isSealed = true) (hb : IndexBroken env q m m')
include g hm hmedia hsound horder hfits hl hq hs hb

/-- The events of a ring with one broken index. -/
theorem IndexBroken.ring_events {ps : List PartitionState} (hps : List.Forall₂ (StateOf env) qs ps)
    (qy : Query) : ∃ p ∈ ps, StateOf env q p ∧ ∃ older newer, qs = older ++ q :: newer ∧
      ps.flatMap (partitionEvents env m' qy) = ringEvents env qy older ++
        (if qy.selectsPartition p then [brokenGap q] else []) ++ ringEvents env qy (q :: newer) := by
  have hm' : env.volume.volumeSize.toNat ≤ m'.size := by
    rw [hb.size]
    exact hm
  induction hps with
  | nil => cases hq
  | @cons r p qs ps hrp hps ih =>
    have hhead := hmedia r (List.mem_cons_self ..)
    have hsound₁ := hsound r (List.mem_cons_self ..)
    have hmedia₂ (x : RingPartition) (hx : x ∈ qs) := hmedia x (List.mem_cons_of_mem _ hx)
    have hsound₂ (x : RingPartition) (hx : x ∈ qs) := hsound x (List.mem_cons_of_mem _ hx)
    obtain ⟨hfirst, horder₂⟩ := List.pairwise_cons.mp horder
    have hcons (rs : List RingPartition) : ringEvents env qy (r :: rs) =
        TFDB.partitionEvents env m qy p ++ ringEvents env qy rs := by
      rw [hhead.partitionEvents g hm hsound₁ hrp hfits.payload hl, ringEvents, List.flatMap_cons,
        List.filter_append]
      rfl
    rcases List.mem_cons.mp hq with hqr | hq'
    · subst hqr
      -- the partitions behind it are as they were
      have hrest : ps.flatMap (partitionEvents env m' qy) = ringEvents env qy qs := by
        refine TFDB.ring_events g hm' (fun x hx => ?_) hsound₂ hfits hl hps qy
        exact hb.other g (hmedia₂ x hx) (hsound₂ x hx) (hfirst x hx).2.symm
      refine ⟨p, List.mem_cons_self .., hrp, [], qs, rfl, ?_⟩
      rw [List.flatMap_cons, hhead.partitionEvents_broken g hm hsound₁ hrp hs hb hfits.payload hl,
        hrest, hcons, List.append_assoc]
      rfl
    · obtain ⟨p', hp', hqp, older, newer, hsplit, hrun⟩ :=
        ih hmedia₂ hsound₂ horder₂ hq'
      have hsame : TFDB.partitionEvents env m' qy p = TFDB.partitionEvents env m qy p := by
        rw [hhead.partitionEvents g hm hsound₁ hrp hfits.payload hl]
        exact (hb.other g hhead hsound₁ (hfirst q hq').2).partitionEvents g hm' hsound₁ hrp
          hfits.payload hl qy
      refine ⟨p', List.mem_cons_of_mem _ hp', hqp, r :: older, newer, ?_, ?_⟩
      · rw [hsplit, List.cons_append]
      · rw [List.flatMap_cons, hsame, hrun, hcons]
        simp only [List.append_assoc]

/-- They can all be read. -/
theorem IndexBroken.ring_readable (hv : ∀ r ∈ qs, r.header.options.compressionVersion ≠ 0)
    {ps : List PartitionState} (hps : List.Forall₂ (StateOf env) qs ps) :
    ∀ p ∈ ps, Readable env m' p := by
  have hm' : env.volume.volumeSize.toNat ≤ m'.size := by
    rw [hb.size]
    exact hm
  intro p hp
  obtain ⟨r, hr, hrp⟩ := forall₂_mem_right hps hp
  have hslots : qs.Pairwise fun a b => a.header.slot ≠ b.header.slot := horder.imp And.right
  have : Std.Symm fun a b : RingPartition => a.header.slot ≠ b.header.slot := ⟨fun _ _ h => h.symm⟩
  by_cases hrq : r = q
  · subst hrq
    exact (hmedia r hr).readable_broken g hm (hsound r hr) hrp hs hb hl (hv r hr)
  · have hne := hslots.forall hr hq hrq
    exact (hb.other g (hmedia r hr) (hsound r hr) hne).readable g hm' (hsound r hr) hrp
      hfits.payload hl (hv r hr)

/-- A store on the ring. -/
theorem IndexBroken.oneGap (hv : ∀ r ∈ qs, r.header.options.compressionVersion ≠ 0) {s : Store}
    (henv : s.env = env) (hps : List.Forall₂ (StateOf env) qs s.partitions) {qy : Query}
    (hvalid : qy.Valid) : OneGap env qs q m m' s qy := by
  have hm' : env.volume.volumeSize.toNat ≤ m'.size := by
    rw [hb.size]
    exact hm
  obtain ⟨p, hp, hqp, older, newer, hsplit, hflat⟩ :=
    hb.ring_events g hm hmedia hsound horder hfits hl hq hs hps qy
  refine ⟨p, hp, hqp, older, newer, hsplit, ?_, ?_⟩
  · rw [Store.query, henv, run_query_answer g hm hvalid _
      (TFDB.ring_readable g hm hmedia hsound hfits hl hps hv), queryEvents,
      sortPartitions_states hps horder, TFDB.ring_events g hm hmedia hsound hfits hl hps]
  · rw [Store.query, henv, run_query_answer g hm' hvalid _
      (hb.ring_readable g hm hmedia hsound horder hfits hl hq hs hv hps), queryEvents,
      sortPartitions_states hps horder, hflat]

end

/-- What the index of a sealed partition is, and what it costs to lose it. -/
structure IndexDerived (env : Env) (d : Disk Item) (so : Option Store) (q : RingPartition) : Prop where
  /-- The partition was closed by a footer; the log has it with the index the writer held in memory. -/
  written : ∃ off f es, (off, Item.footer f es) ∈ d.issued ∧ f.generation = q.header.generation
  /-- The index loads as those entries, and a scan of the blocks finds them. -/
  loads : ∀ off f es, (off, Item.footer f es) ∈ d.issued → f.generation = q.header.generation →
    ∀ p, StateOf env q p →
      Rd.run (imageSource (d.volatile (Item.bytes env))) (loadIndex env p) =
          .ok (es.map IndexEntry.stored) ∧
        Rd.run (imageSource (d.volatile (Item.bytes env)))
            (scanPartition env p.header p.footer.dataEnd.toNat) =
          .ok ⟨es, p.footer.dataEnd.toNat, false⟩
  /-- A store that was open keeps its answers, but for one gap. -/
  live : ∀ m', IndexBroken env q (d.volatile (Item.bytes env)) m' → ∀ s, so = some s →
    ∀ qy : Query, qy.Valid →
      OneGap env (ringOf d.issued) q (d.volatile (Item.bytes env)) m' s qy
  /-- So does a store that is opened on the changed medium. -/
  reopened : ∀ m', IndexBroken env q (d.volatile (Item.bytes env)) m' → CollisionFreeNow env d →
    ∀ (o : OpenOptions) (random : Except Status (UInt64 × UInt64)), o.verifyPayloadsOnOpen = false →
      o.codecs = env.codecs →
      Rd.run (imageSource m') (recover m'.size o random) =
          Rd.run (imageSource (d.volatile (Item.bytes env)))
            (recover (d.volatile (Item.bytes env)).size o random) ∧
        ∀ s, Rd.run (imageSource m') (recover m'.size o random) = .ok s → ∀ qy : Query, qy.Valid →
          OneGap env (ringOf d.issued) q (d.volatile (Item.bytes env)) m' s qy
  /-- A query with a range that is refused is refused on both media. -/
  refused : ∀ m' (s : Store) (qy : Query), ¬ qy.Valid →
    ReadProg.run (imageSource m') (s.query qy) =
      ReadProg.run (imageSource (d.volatile (Item.bytes env))) (s.query qy)

/-- **The index of a sealed partition only says what its blocks say.**  It loads as the entries that
a scan of the blocks returns and that the writer held when it sealed the partition.  With a broken
index, every call shows the events it showed before, and one more gap if it asks for the time
domain of the partition; it ends where the visitor or the first gap ends it. -/
theorem index_derived {env : Env} {prior : Image} {d : Disk Item} {so : Option Store}
    (h : Clean env prior (CollisionFreeNow env) d so) (hfits : env.SpanFits) (hl : env.Lawful)
    (hv : ∀ r ∈ ringOf d.issued, r.header.options.compressionVersion ≠ 0) {q : RingPartition}
    (hq : q ∈ ringOf d.issued) (hs : q.isSealed = true) : IndexDerived env d so q := by
  obtain ⟨g, hsize, hr, hstore⟩ := h.ring fun _ hd => hd
  have hprior := Nat.le_of_eq hsize
  have hm : env.volume.volumeSize.toNat ≤ (d.volatile (Item.bytes env)).size := by
    rw [hr.size]
    exact hprior
  have hkept := h.footersKept fun _ hd => hd
  have hmedia := hr.media q hq
  have hsound := hr.sound q hq
  constructor
  · exact hkept.present q hq hs
  · intro off f es hf hgen p hp
    rw [hkept.entries off f es hf q hq hgen, hp.closed hs]
    exact ⟨hmedia.loadIndex g hm hfits.payload hsound hp hs,
      hmedia.scanSealed g hm hsound hp.slot hp.generation hp.options⟩
  · intro m' hb s hso qy hvalid
    obtain ⟨henv, -, hcat, -⟩ := hstore s hso
    exact hb.oneGap g hm hr.media hr.sound hr.order hfits hl hq hs hv henv hcat.states hvalid
  · intro m' hb hc o random hlazy ho
    have hvol := hr.readVolumeHeader g hprior
    have hsame := hb.recover g hvol hlazy ho random
    refine ⟨hsame, fun s hrec qy hvalid => ?_⟩
    rw [hsame] at hrec
    obtain ⟨⟨id, -, rfl⟩, -, -⟩ := recover_ok g hm (fun v hvr => by
      rw [hvol] at hvr
      exact (Except.ok.inj hvr).symm) ho hrec
    exact hb.oneGap g hm hr.media hr.sound hr.order hfits hl hq hs hv rfl
      (hr.states g hprior hc hv) hvalid
  · intro m' s qy hrefused
    exact query_refused hrefused _ _ _ _ _

namespace Sample

/-- The sealed partition of the sample run. -/
def first : RingPartition where
  header := header 0 1
  blocks := [⟨block 0 (0, 0) (3, 4), record, record⟩]
  isSealed := true

theorem ring_rotated : ringOf rotated.issued = [first, { header := header 1 2 }] := rfl

theorem first_mem : first ∈ ringOf rotated.issued := by
  rw [ring_rotated]
  exact List.mem_cons_self ..

/-- The medium of the sample run, with the first byte of the index changed. -/
def brokenImage : Image :=
  (rotated.volatile (Item.bytes env)).write 12800 [(rotated.volatile (Item.bytes env)).byte 12800 + 1]

theorem broken : IndexBroken env first (rotated.volatile (Item.bytes env)) brokenImage := by
  obtain ⟨g, -, hr, -⟩ := clean_rotated.ring fun _ hd => hd
  have hsound := hr.sound first first_mem
  have hsize := ((hr.media first first_mem).sealedBy hsound).indexSize
  refine (hr.media first first_mem).indexBroken (o := 0)
    (y := [(rotated.volatile (Item.bytes env)).byte 12800 + 1]) g hsound rfl (by decide) ?_ ?_
  · rw [hsize]
    decide
  · intro heq
    have hbyte : (rotated.volatile (Item.bytes env)).byte 12800 =
        (rotated.volatile (Item.bytes env)).byte 12800 + 1 := List.head_eq_of_cons_eq heq
    exact absurd hbyte (by simp)

theorem oneGap {qy : Query} (hvalid : qy.Valid) :
    OneGap env (ringOf rotated.issued) first (rotated.volatile (Item.bytes env)) brokenImage final
      qy := by
  obtain ⟨g, hsize, hr, hstore⟩ := clean_rotated.ring fun _ hd => hd
  have hm : env.volume.volumeSize.toNat ≤ (rotated.volatile (Item.bytes env)).size := by
    rw [hr.size]
    exact Nat.le_of_eq hsize
  obtain ⟨henv, -, hcat, -⟩ := hstore final rfl
  exact broken.oneGap g hm hr.media hr.sound hr.order spanFits lawful first_mem rfl (by decide) henv
    hcat.states hvalid

/-- The first partition is the first of the ring. -/
theorem first_split {older newer : List RingPartition}
    (h : ringOf rotated.issued = older ++ first :: newer) :
    older = [] ∧ newer = [{ header := header 1 2 }] := by
  rw [ring_rotated] at h
  cases older with
  | nil => exact ⟨rfl, (List.cons.inj h).2.symm⟩
  | cons r older =>
    have hin : first ∈ [({ header := header 1 2 } : RingPartition)] := by
      rw [(List.cons.inj h).2]
      exact List.mem_append_right _ (List.mem_cons_self ..)
    exact absurd (congrArg RingPartition.isSealed (List.mem_singleton.mp hin)) (by decide)

/-- A range in a time domain that the sample does not use. -/
def foreignRange : Query := { range := some { beginNs := 0, endNs := 1, timeDomainId := 2 } }

/-- A scan that ends at the first gap. -/
def untilGap : Query := { continueOnGap := false }

end Sample

/-- The sample run, with one sealed partition. -/
theorem sample_index_derived : IndexDerived Sample.env Sample.rotated (some Sample.final) Sample.first ∧
    IndexBroken Sample.env Sample.first (Sample.rotated.volatile (Item.bytes Sample.env))
      Sample.brokenImage :=
  ⟨index_derived Sample.clean_rotated Sample.spanFits Sample.lawful (by decide) Sample.first_mem rfl,
    Sample.broken⟩

/-- A query of another time domain does not see a broken index, and a scan that ends at gaps ends
before the blocks of the partition. -/
theorem broken_index_partly_seen :
    (¬ ∀ m', IndexBroken Sample.env Sample.first (Sample.rotated.volatile (Item.bytes Sample.env)) m' →
      ∀ qy : Query, qy.Valid →
        (ReadProg.run (imageSource m') (Sample.final.query qy)).1.corruptGaps =
          (ReadProg.run (imageSource (Sample.rotated.volatile (Item.bytes Sample.env)))
            (Sample.final.query qy)).1.corruptGaps + 1) ∧
    ¬ ∀ m', IndexBroken Sample.env Sample.first (Sample.rotated.volatile (Item.bytes Sample.env)) m' →
      ∀ qy : Query, qy.Valid →
        (ReadProg.run (imageSource m') (Sample.final.query qy)).1.events.filter (·.kind == .data) =
          (ReadProg.run (imageSource (Sample.rotated.volatile (Item.bytes Sample.env)))
            (Sample.final.query qy)).1.events.filter (·.kind == .data) := by
  constructor
  · intro hall
    have hvalid : Sample.foreignRange.Valid := by
      intro r hr
      cases hr
      decide
    have hgaps := hall _ Sample.broken _ hvalid
    obtain ⟨p, -, hp, older, newer, hsplit, hrun, hrun'⟩ := Sample.oneGap hvalid
    obtain ⟨holder, hnewer⟩ := Sample.first_split hsplit
    have hsel : Sample.foreignRange.selectsPartition p = false := by
      unfold Query.selectsPartition
      rw [hp.options]
      rfl
    rw [hrun, hrun', holder, hnewer, hsel] at hgaps
    exact absurd hgaps (by decide)
  · intro hall
    have hvalid : Sample.untilGap.Valid := fun r hr => by cases hr
    have hdata := hall _ Sample.broken _ hvalid
    obtain ⟨p, -, hp, older, newer, hsplit, hrun, hrun'⟩ := Sample.oneGap hvalid
    obtain ⟨holder, hnewer⟩ := Sample.first_split hsplit
    have hsel : Sample.untilGap.selectsPartition p = true := rfl
    rw [hrun, hrun', holder, hnewer, hsel] at hdata
    exact absurd (congrArg List.length hdata) (by decide)

end TFDB
