import TFDB.Damage
import TFDB.Incarnation

/-!
# Footers and the blocks behind them

A generation that a power cut has left without a readable footer is opened again, gets more blocks
and a second footer.

* `footer_covers` — a footer that a reader accepts covers every flushed block of its generation, if
  no block was written behind a footer;
* `stale_footer_hides_block` — the first footer comes back, and a flushed block is behind its end.
-/

set_option autoImplicit false

namespace TFDB

open ByteLib Writer

section
variable {env : Env} {x : Sys} {m : Image}

/-- **A footer covers the flushed blocks of its generation.**  Whatever a power cut leaves, the
footer of a partition that a read-only open takes as sealed counts every block of the generation that
a flush has covered and ends behind it, if no block of the generation was written behind a footer of
it and no footer of it behind a newer header for its slot. -/
theorem footer_covers (h : Remains env x m) {s : Store} (hs : openReadOnly env.codecs m = .ok s)
    {p : PartitionState} (hp : p ∈ s.partitions) (hsealed : p.isSealed = true)
    (hlast : SealsLastOf p.header.generation x.disk.issued) {off : Nat} {b : BlockHeader}
    {payload raw : Bytes} (hf : (off, Item.frame b payload raw) ∈ x.disk.flushed)
    (hgen : b.generation = p.header.generation) :
    b.sequence < p.footer.blockCount ∧
      off + b.frameSpan.toNat ≤ env.partitionBase p.header.slot + p.footer.dataEnd.toNat := by
  obtain ⟨g, hg⟩ := h.genuine
  obtain rfl := h.opened hs
  -- a sealed partition of the catalog is the state of its slot
  obtain ⟨q, hq, hpq⟩ := catalogOf_mem hp
  have hqp : p = q := by
    rcases hpq with rfl | rfl
    · rfl
    · rw [PartitionState.cleared_isSealed] at hsealed
      rw [PartitionState.cleared, if_pos hsealed]
  subst hqp
  have hslot : b.slot = p.header.slot := by
    obtain ⟨φ, hpr, -⟩ := reach_simulated (fun _ _ h => h) (fun _ h => h) h.reach
    have hmade : FrameMade env x.disk.issued x.writers off b payload raw :=
      hg.items _ ((hpr.log (fun _ _ h => h) fun _ h => h).flushed _ hf)
    obtain ⟨hs, hstate⟩ := mem_slotStates.mp hq
    obtain ⟨hd, hhead, -, -, heq, -⟩ := slotHeader_issued g hg.items hg.free hs
      (slotState_header hstate)
    have hof : SlotOf env p.header.slot p.header.generation := by
      rw [heq]
      exact hhead.slotOf
    exact (FrameMade.region g hg.items hmade).2.1.unique (hgen ▸ hof)
  obtain ⟨es, hd, fs, hseal, -, hds, hframe⟩ := h.covered hlast hq hsealed hf hslot hgen
  rw [← hds] at hframe
  have hcovers := hseal.covers g hframe
  rw [hds, hslot] at hcovers
  exact hcovers

end

/-! ## Partitions without a footer -/

/-- Two slots with the same header and data region and no readable footer are the same partition. -/
theorem slotState_unfooted {env : Env} {m m' : Image} (g : Geometry env) (slot : UInt32)
    (hsize : m'.size = m.size)
    (hsame : ∀ a, env.partitionBase slot ≤ a → a < env.partitionBase slot + env.indexBegin →
      m'.byte a = m.byte a)
    (hf : m.byte (env.partitionBase slot + env.footerOffset) ≠ magicByte)
    (hf' : m'.byte (env.partitionBase slot + env.footerOffset) ≠ magicByte) :
    slotState env m' slot = slotState env m slot ∧ slotHeader env m' slot = slotHeader env m slot := by
  obtain ⟨e1, e2, e3, e4, e5, e6, e7, e8, e9, e10⟩ := slot_parts g
  have hheader : slotHeader env m' slot = slotHeader env m slot := by
    unfold slotHeader
    rw [Image.window_congr fun a h1 h2 => hsame a h1 (by omega)]
  refine ⟨?_, hheader⟩
  cases hh : slotHeader env m slot with
  | error e => rw [slotState_of_error hh, slotState_of_error (hheader.trans hh)]
  | ok h =>
    have hs := slotHeader_slot hh
    subst hs
    obtain ⟨e, he, -⟩ := slotFooter_foreign hf
    obtain ⟨e', he', -⟩ := slotFooter_foreign hf'
    have hscan : slotScan env m' h = slotScan env m h := by
      unfold slotScan
      have hreads : Rd.Reads (fun off n => ∃ o, off = env.partitionBase h.slot + o ∧
          o + n ≤ env.indexBegin) (fun _ => True) (scanPartition env h 0) :=
        reads_scanPartition h 0 fun o n ho => ⟨o, rfl, ho⟩
      rw [Rd.run_congr hreads]
      rintro off n ⟨o, rfl, ho⟩
      unfold imageSource
      rw [hsize, Image.window_congr fun a h1 h2 => hsame a (by omega) (by omega)]
    rw [slotState_of_open hh he, slotState_of_open (hheader.trans hh) he', hscan]

/-! ## A generation with two footers

The run seals the partition with one block; a power cut keeps all of the footer but its first byte.
A second writer opens the partition, which has no footer, adds a block, flushes it and seals again; the
next power cut keeps the index and the first byte of the second footer. -/

namespace Sample

/-- What the first cut leaves. -/
def headless : Image :=
  (sealing.durable.write 12800 (Item.bytes env (.index full.activeIndex))).write 12929
    ((Item.bytes env (.footer footer full.activeIndex)).drop 1)

theorem reach_sealing (cut : Disk Item → Image → Prop) : ∃ k, Reach env cut (CollisionFreeNow env)
    ⟨sealing, [(3, 4)], .busy (.rotate {}) k⟩ :=
  ⟨_, (((reach_published.call _ exec_checkpoint).step (.call _ (.rotate {}) rfl)).step
    (.effect _ rfl (.write 12800 (.index full.activeIndex) _))).step
    (.effect _ rfl (.write 12928 (.footer footer full.activeIndex) _))⟩

/-- The cut keeps the index, and the footer from its second byte on. -/
theorem headless_cut : sealing.FragmentCut (Item.bytes env) headless := by
  have hindex : (Item.bytes env (.index full.activeIndex)).length = 48 := encodeIndex_length _
  have hfooter := Item.bytes_footer_length env footer full.activeIndex
  refine ⟨[(⟨12800, .index full.activeIndex, (Item.bytes env (.index full.activeIndex)).length⟩, 0, 48),
    (⟨12928, .footer footer full.activeIndex,
      (Item.bytes env (.footer footer full.activeIndex)).length⟩, 1, 255)], ?_, ?_⟩
  · simp [sealing, indexed, write, Disk.issue]
  · rw [List.foldl_cons, List.foldl_cons, List.foldl_nil, Write.bytes, Write.bytes, List.take_length,
      List.take_length, slice_drop (Nat.le_of_eq hindex), slice_drop (Nat.le_of_eq hfooter)]
    rfl

theorem sealing_blank : sealing.durable.byte 12928 ≠ magicByte := by
  have h : sealing.durable.byte (12928 + 0) = 0 := footer_blank (by decide)
  rw [Nat.add_zero] at h
  rw [h]
  exact blank_byte

/-- The first byte of the footer is the one the storage had before. -/
theorem headless_eq : headless =
    sealedWith (0 :: (Item.bytes env (.footer footer full.activeIndex)).drop 1) := by
  have hindex : (Item.bytes env (.index full.activeIndex)).length = 48 := encodeIndex_length _
  have hzero : (sealing.durable.write 12800 (Item.bytes env (.index full.activeIndex))).byte 12928 = 0 := by
    rw [Image.write_byte_out (by rw [hindex]; decide)]
    exact footer_blank (i := 0) (by decide)
  rw [← hzero]
  exact Image.write_succ ..

theorem headless_byte : headless.byte 12928 ≠ magicByte := by
  rw [headless_eq, sealedWith, Image.write_byte_in (Nat.le_refl _) (by simp), Nat.sub_self]
  exact blank_byte

theorem headless_plain : Plain env sealing.issued headless := by
  have hfooter := Item.bytes_footer_length env footer full.activeIndex
  have hbyte := headless_byte
  rw [headless_eq] at hbyte ⊢
  refine sealedWith_plain ?_ (foreign_window hbyte).not_footer
  rw [List.length_cons, List.length_drop, hfooter]

theorem flushed_seen : flushedDisk.volatile (Item.bytes env) = sealing.durable := by
  rw [flushedDisk, Disk.flush_volatile]
  rfl

/-- The cut leaves the storage in front of the seal, but for the last parts of the slot. -/
theorem headless_beside : Beside env 0 (flushedDisk.volatile (Item.bytes env)) headless := by
  have hindex : (Item.bytes env (.index full.activeIndex)).length = 48 := encodeIndex_length _
  have hfooter := Item.bytes_footer_length env footer full.activeIndex
  have hpart : env.partitionBase 0 = 8192 ∧ env.partitionSize = 8832 := ⟨rfl, rfl⟩
  rw [flushed_seen]
  refine ⟨(Image.write_size ..).trans (Image.write_size ..), fun a ha => ?_⟩
  rw [headless, Image.write_byte_out (by rw [List.length_drop, hfooter]; omega),
    Image.write_byte_out (by rw [hindex]; omega)]

theorem headless_data {a : Nat} (h : a < 12800) :
    headless.byte a = (flushedDisk.volatile (Item.bytes env)).byte a := by
  rw [flushed_seen, headless, Image.write_byte_out (Or.inl (by omega)), Image.write_byte_out (Or.inl h)]

/-! What an image has in common with the storage in front of the seal. -/

section
variable {m : Image}

theorem volume_readable (hfront : ∀ a < 12288, m.byte a = (flushedDisk.volatile (Item.bytes env)).byte a) :
    HeaderReadable env m := by
  obtain ⟨g, hsize, hr, -⟩ := clean_synced.ring fun _ hd => hd
  have hm := Nat.le_of_eq hsize
  have hvolumes : ∀ off v, (off, Item.volume v) ∈ flushedDisk.issued → v = env.volume := by
    intro off v h
    simp [flushedDisk, framed, created, formatted, disk, write, Disk.flush, Disk.issue] at h
    rcases h with h | h <;> exact h.2
  obtain ⟨off, hoff, hdec⟩ := (readVolumeHeader_iff g (by rw [hr.size]; exact hm) hvolumes
    flushed_inOrder.collisionFree).mp (hr.readVolumeHeader g hm)
  refine ⟨off, hoff, ?_⟩
  have hcopy : off ≤ 4096 := by
    rcases hoff with rfl | rfl
    · exact Nat.zero_le _
    · exact Nat.le_refl _
  rw [Image.window_congr fun a _ h2 => hfront a (Nat.lt_of_lt_of_le h2 (by
    simp only [volumeHeaderEncodedSize]
    omega))]
  exact hdec

theorem first_header (hfront : ∀ a < 12288, m.byte a = (flushedDisk.volatile (Item.bytes env)).byte a) :
    slotHeader env m 0 = .ok ((header 0 1).written env) := by
  obtain ⟨g, -, hr, -⟩ := clean_synced.ring fun _ hd => hd
  have hring : ∃ q ∈ ringOf flushedDisk.issued, q.header = header 0 1 := by decide
  obtain ⟨q, hq, hhead⟩ := hring
  have hv : ∀ q ∈ ringOf flushedDisk.issued, q.header.options.compressionVersion ≠ 0 := by decide
  have hh := hr.slotHeader g hq (hv q hq)
  rw [hhead] at hh
  have hbase : env.partitionBase 0 + partitionHeaderEncodedSize ≤ 12288 := by decide
  have hslot : (header 0 1).slot = 0 := rfl
  unfold slotHeader at hh ⊢
  rw [Image.window_congr fun a _ h2 => hfront a (by omega)]
  exact hh

theorem second_slot (hb : Beside env 0 (flushedDisk.volatile (Item.bytes env)) m) :
    ¬ SlotFails env m 1 := by
  obtain ⟨g, hsize, hr, -⟩ := clean_synced.ring fun _ hd => hd
  have hother : (1 : UInt32) ≠ 0 := by decide
  rw [hb.slotFails hother g]
  exact (hr.strictSlot g (Nat.le_of_eq hsize) flushed_inOrder.collisionFree (by decide) spanFits lawful
    unmarked quietFooters (by decide)).not_fails g (by rw [hr.size]; exact Nat.le_of_eq hsize) (by decide)

/-- With a footer in place the first partition opens as sealed. -/
theorem sealed_opens {x : Sys} (h : Remains env x m)
    (hfront : ∀ a < 12288, m.byte a = (flushedDisk.volatile (Item.bytes env)).byte a)
    (hb : Beside env 0 (flushedDisk.volatile (Item.bytes env)) m) {f : PartitionFooter}
    {es : List IndexEntry} (hmem : (12928, Item.footer f es) ∈ x.disk.issued) (hslot : f.slot = 0)
    (hgen : f.generation = 1)
    (hw : m.window 12928 partitionFooterEncodedSize = Item.bytes env (.footer f es)) :
    ∃ s, openReadOnly env.codecs m = .ok s ∧
      sealedState ((header 0 1).written env) f ∈ s.partitions := by
  obtain ⟨g, hg⟩ := h.genuine
  obtain ⟨φ, hpr, -⟩ := reach_simulated (fun _ _ h => h) (fun _ h => h) h.reach
  obtain ⟨hd, fs, hseal, -⟩ := hpr.footers (fun _ _ h => h) (fun _ h => h) _ _ _ hmem
  have hheader := first_header hfront
  have hoff : env.partitionBase ((header 0 1).written env).slot + env.footerOffset = 12928 := rfl
  have hfooter : slotFooter env m ((header 0 1).written env) = .ok f := by
    unfold slotFooter
    rw [hoff, hw]
    exact hseal.accepted g (hslot.symm.trans hseal.slot) (hgen.symm.trans hseal.generation)
  have hnf : ∀ slot < env.volume.partitionCount, ¬ SlotFails env m slot := by
    intro slot hs
    rcases slots hs with rfl | rfl
    · intro hfails
      obtain ⟨e, he, -⟩ := (slotFails_of_ok hheader).mp hfails
      rw [hfooter] at he
      cases he
    · exact second_slot hb
  obtain ⟨s, hopen⟩ := recover_isOk (o := { codecs := env.codecs }) g hg.size
    ((readVolumeHeader_iff g hg.size hpr.volumes h.free).mpr (volume_readable hfront)) rfl rfl
    (show prepareWriter env { codecs := env.codecs } (.ok (0, 0)) = .ok (0, 0) from rfl) hnf
    (generationsOk_issued g hg.items h.free)
  refine ⟨s, hopen, ?_⟩
  obtain rfl := h.opened hopen
  obtain ⟨p, hp, hpq⟩ := mem_catalogOf_of_state (mem_slotStates.mpr
    ⟨show ((header 0 1).written env).slot < env.volume.partitionCount by decide,
      slotState_of_sealed hheader hfooter⟩)
  rcases hpq with rfl | rfl <;> exact hp

end

/-- An open finds the partition as it was before the seal. -/
theorem recover_headless : recoverOn env headless openOptions (5, 6) = .ok resumed := by
  obtain ⟨g, hsize, hr, -⟩ := clean_synced.ring fun _ hd => hd
  have hm := Nat.le_of_eq hsize
  have hc := flushed_inOrder.collisionFree
  have hv : ∀ q ∈ ringOf flushedDisk.issued, q.header.options.compressionVersion ≠ 0 := by decide
  have hid : prepareWriter env openOptions (.ok (5, 6)) = .ok (5, 6) := rfl
  have hresumed : openedStore env (flushedDisk.volatile (Item.bytes env)) openOptions (5, 6) = resumed :=
    Except.ok.inj ((hr.recovers g hm hc hv spanFits lawful unmarked quietFooters (o := openOptions) rfl
      hid).symm.trans (recover_flushed (o := openOptions) rfl hid))
  have hblank : (flushedDisk.volatile (Item.bytes env)).byte (env.partitionBase 0 + env.footerOffset) ≠
      magicByte := by
    rw [flushed_seen]
    exact sealing_blank
  obtain ⟨hstate, hheader⟩ := slotState_unfooted g 0 headless_beside.size
    (fun a _ h2 => headless_data h2) hblank headless_byte
  have hfirst := first_header (m := flushedDisk.volatile (Item.bytes env)) fun a _ => rfl
  have hsame : ∀ slot < env.volume.partitionCount,
      slotState env headless slot = slotState env (flushedDisk.volatile (Item.bytes env)) slot ∧
      slotDamaged env headless slot = slotDamaged env (flushedDisk.volatile (Item.bytes env)) slot ∧
      ¬ SlotFails env headless slot := by
    intro slot hs
    rcases slots hs with rfl | rfl
    · refine ⟨hstate, ?_, fun hfails => ?_⟩
      · rw [slotDamaged_of_ok hfirst, slotDamaged_of_ok (hheader.trans hfirst)]
      · obtain ⟨e, he, hcode⟩ := (slotFails_of_ok (hheader.trans hfirst)).mp hfails
        have hoff : env.partitionBase ((header 0 1).written env).slot + env.footerOffset = 12928 := rfl
        obtain ⟨e', he', hcode'⟩ := slotFooter_foreign (h := (header 0 1).written env)
          (hoff ▸ headless_byte)
        obtain rfl := Except.error.inj (he.symm.trans he')
        rw [hcode] at hcode'
        cases hcode'
    · have hother : (1 : UInt32) ≠ 0 := by decide
      exact ⟨headless_beside.slotState hother g, headless_beside.slotDamaged hother g,
        second_slot headless_beside⟩
  have hstates : slotStates env headless = slotStates env (flushedDisk.volatile (Item.bytes env)) :=
    List.filterMap_congr fun slot hs => (hsame slot (mem_slotList.mp hs)).1
  have hdamaged : (slotList env).filter (slotDamaged env headless) =
      (slotList env).filter (slotDamaged env (flushedDisk.volatile (Item.bytes env))) :=
    List.filter_congr fun slot hs => (hsame slot (mem_slotList.mp hs)).2.1
  have hm' : env.volume.volumeSize.toNat ≤ headless.size := by
    rw [headless_beside.size, hr.size]
    exact hm
  have hvolume : Rd.run (imageSource headless) readVolumeHeader = .ok env.volume := by
    refine (readVolumeHeader_iff g hm' (fun off v h => ?_) (.of_plain g headless_plain)).mpr
      (volume_readable fun a ha => headless_data (by omega))
    simp [sealing, indexed, framed, created, formatted, disk, write, Disk.flush, Disk.issue] at h
    rcases h with h | h <;> exact h.2
  have hgen : GenerationsOk (slotStates env headless) := by
    rw [hstates]
    exact hr.generationsOk g hm hc hv
  obtain ⟨s, hs⟩ := recover_isOk (o := openOptions) g hm' hvolume rfl rfl hid
    (fun slot hs => (hsame slot hs).2.2) hgen
  obtain ⟨⟨id, hid', rfl⟩, -⟩ := recover_ok (o := openOptions) g hm'
    (fun v hv' => Except.ok.inj (hv'.symm.trans hvolume)) rfl hs
  obtain rfl : (5, 6) = id := Except.ok.inj hid'
  have hopened : openedStore env headless openOptions (5, 6) = resumed := by
    rw [← hresumed]
    unfold openedStore
    rw [hstates, hdamaged]
  rw [hopened] at hs
  exact hs

/-! The second seal. -/

def resealed : Disk Item := write (sealing.restart headless) 12544 (.frame secondBlock record record)

/-- The partition with the blocks of both writers. -/
def both : PartitionState := Writer.addBlock found secondBlock 129 256

def secondFooter : PartitionFooter := Writer.sealFooter env both

def resealing : Disk Item :=
  write (write (resealed.flush (Item.bytes env)) 12800 (.index both.activeIndex)) 12928
    (.footer secondFooter both.activeIndex)

theorem reach_resealing (cut : Disk Item → Image → Prop) (hcut : cut sealing headless) :
    ∃ k, Reach env cut (CollisionFreeNow env) ⟨resealing, [(3, 4), (5, 6)], .busy (.rotate {}) k⟩ := by
  obtain ⟨k, hrun⟩ := reach_sealing cut
  have hdown := hrun.step (.powerCut _ headless hcut)
  have hassumed : CollisionFreeNow env (sealing.restart headless) := by
    unfold CollisionFreeNow
    rw [Disk.restart_volatile, Disk.restart_issued]
    exact .of_plain geometry headless_plain
  have hfresh : ((5 : UInt64), (6 : UInt64)) ∉ [((3 : UInt64), (4 : UInt64))] := by decide
  have hopened := hdown.open (o := openOptions) hassumed rfl hfresh (by decide)
    (by rw [Disk.restart_volatile]; exact recover_headless) rfl
    (show (startWriter resumed).exec (Item.bytes env) (sealing.restart headless) =
      ((.ok (), resumed), sealing.restart headless) from rfl)
  have happended := hopened.call (.append record 0 0)
    (show ((Op.append record 0 0).program resumed).exec (Item.bytes env) (sealing.restart headless) =
      ((.ok (), resumedAppended), sealing.restart headless) from rfl)
  have hpublished := happended.call .publish
    (show (Op.publish.program resumedAppended).exec (Item.bytes env) (sealing.restart headless) =
      ((.ok (), resumedPublished), resealed) from rfl)
  have hsynced := hpublished.call .checkpoint
    (show (Op.checkpoint.program resumedPublished).exec (Item.bytes env) resealed =
      ((.ok (), Writer.synced true resumedPublished), resealed.flush (Item.bytes env)) from rfl)
  exact ⟨_, ((hsynced.step (.call _ (.rotate {}) rfl)).step
    (.effect _ rfl (.write 12800 (.index both.activeIndex) _))).step
    (.effect _ rfl (.write 12928 (.footer secondFooter both.activeIndex) _))⟩

/-- What the second cut leaves. -/
def revived : Image :=
  (resealing.durable.write 12800 (Item.bytes env (.index both.activeIndex))).write 12928 [magicByte]

theorem footer_first (f : PartitionFooter) (es : List IndexEntry) :
    slice (Item.bytes env (.footer f es)) 0 1 = [magicByte] := by
  obtain ⟨rest, hrest⟩ := structureFront_footer env f es
  rw [← hrest, slice_append_left (by decide)]
  rfl

/-- The cut keeps the index, and the first byte of the footer. -/
theorem revived_cut : resealing.FragmentCut (Item.bytes env) revived := by
  have hindex : (Item.bytes env (.index both.activeIndex)).length = 96 := encodeIndex_length _
  refine ⟨[(⟨12800, .index both.activeIndex, (Item.bytes env (.index both.activeIndex)).length⟩, 0, 96),
    (⟨12928, .footer secondFooter both.activeIndex,
      (Item.bytes env (.footer secondFooter both.activeIndex)).length⟩, 0, 1)], ?_, ?_⟩
  · simp [resealing, write, Disk.issue]
  · rw [List.foldl_cons, List.foldl_cons, List.foldl_nil, Write.bytes, Write.bytes, List.take_length,
      List.take_length, slice_drop (Nat.le_of_eq hindex), footer_first]
    rfl

theorem resealed_seen : resealing.durable = headless.write 12544
    (Item.bytes env (.frame secondBlock record record)) := by
  have h : resealing.durable = (resealed.flush (Item.bytes env)).durable := rfl
  rw [h, Disk.flush_durable, resealed, write_seen, Disk.restart_volatile]

/-- The first footer is whole again. -/
theorem revived_footer : revived.window 12928 partitionFooterEncodedSize =
    Item.bytes env (.footer footer full.activeIndex) := by
  have hindex : (Item.bytes env (.index both.activeIndex)).length = 96 := encodeIndex_length _
  have hframe := Item.bytes_frame_length env secondBlock record record
  have hfooter := Item.bytes_footer_length env footer full.activeIndex
  have hrest : revived.window 12929 255 = (Item.bytes env (.footer footer full.activeIndex)).drop 1 := by
    rw [revived, Image.window_write_out (Or.inr (by decide)), Image.window_write_out (by rw [hindex]; decide),
      resealed_seen, Image.window_write_out (by rw [hframe]; decide), headless]
    exact Image.window_write_same _ (by rw [List.length_drop, hfooter])
  have hfirst : revived.window 12928 1 = (Item.bytes env (.footer footer full.activeIndex)).take 1 := by
    have hone := footer_first footer full.activeIndex
    rw [slice, List.drop_zero] at hone
    rw [hone, revived]
    exact Image.window_write_same _ rfl
  have hsplit := Image.window_add revived 12928 1 255
  rw [hfirst, hrest, List.take_append_drop] at hsplit
  exact hsplit

theorem resealed_inOrder : InOrder (resealed.flush (Item.bytes env)) := by
  have hrestart : InOrder (sealing.restart headless) := by
    unfold InOrder
    rw [Disk.restart_volatile, Disk.restart_issued]
    exact headless_plain
  refine (hrestart.frame 0 4352 _ rfl (Or.inr rfl) rfl rfl fun o' b' payload' raw' h _ => ?_).flush
  rw [Disk.restart_issued] at h
  simp [sealing, indexed, framed, created, formatted, write, disk, Disk.flush, Disk.issue] at h
  have hbase : env.partitionBase 0 = 8192 := rfl
  simp only [h.2.2.1, record, List.length_singleton]
  omega

theorem revived_plain : Plain env resealing.issued revived := by
  have hindexed : InOrder (write (resealed.flush (Item.bytes env)) 12800 (.index both.activeIndex)) := by
    refine resealed_inOrder.index 0 _ rfl (by decide) fun f es h => ?_
    simp [resealed, sealing, indexed, framed, created, formatted, write, disk, Disk.flush, Disk.issue,
      Disk.restart] at h
    obtain ⟨-, rfl, rfl⟩ := h
    exact ⟨⟨[blockEntry 4352 secondBlock], rfl⟩, by decide⟩
  have hmem : (12928, Item.footer footer full.activeIndex) ∈ resealing.issued := by
    simp [resealing, resealed, sealing, write, Disk.flush, Disk.issue, Disk.restart]
  have hseen : (write (resealed.flush (Item.bytes env)) 12800 (.index both.activeIndex)).volatile
      (Item.bytes env) = resealing.durable.write 12800 (Item.bytes env (.index both.activeIndex)) := by
    rw [write_seen, Disk.flush_volatile, ← Disk.flush_durable]
    rfl
  have hfooter := revived_footer
  unfold revived at hfooter ⊢
  rw [← hseen] at hfooter ⊢
  exact @Plain.issueFooter env geometry _ _ hindexed 0 secondFooter both.activeIndex [magicByte]
    (by decide) (by decide) (seen_index _ _ rfl) (Or.inr ⟨_, _, hmem, hfooter⟩)

theorem revived_front {a : Nat} (ha : a < 12544) :
    revived.byte a = (flushedDisk.volatile (Item.bytes env)).byte a := by
  rw [revived, Image.write_byte_out (Or.inl (by omega)), Image.write_byte_out (Or.inl (by omega)),
    resealed_seen, Image.write_byte_out (Or.inl ha)]
  exact headless_data (by omega)

theorem revived_beside : Beside env 0 (flushedDisk.volatile (Item.bytes env)) revived := by
  have hindex : (Item.bytes env (.index both.activeIndex)).length = 96 := encodeIndex_length _
  have hframe := Item.bytes_frame_length env secondBlock record record
  have hrecord : record.length = 1 := rfl
  have hpart : env.partitionBase 0 = 8192 ∧ env.partitionSize = 8832 := ⟨rfl, rfl⟩
  obtain ⟨hsize, hout⟩ := headless_beside
  refine ⟨?_, fun a ha => ?_⟩
  · rw [revived, Image.write_size, Image.write_size, resealed_seen, Image.write_size]
    exact hsize
  · rw [revived, Image.write_byte_out (by simp only [List.length_singleton]; omega),
      Image.write_byte_out (by rw [hindex]; omega), resealed_seen,
      Image.write_byte_out (by rw [hframe]; omega)]
    exact hout a ha

theorem revived_remains : ∃ k, Remains env
    ⟨resealing, [(3, 4), (5, 6)], .busy (.rotate {}) k⟩ revived := by
  obtain ⟨k, hrun⟩ := reach_resealing (fun d m => d.MixCut (Item.bytes env) m) headless_cut.mixCut
  exact ⟨k, hrun, revived_cut.mixCut, .of_plain geometry revived_plain⟩

/-! The same two blocks, sealed once. -/

def closing : Disk Item :=
  write (write (continued.flush (Item.bytes env)) 12800 (.index both.activeIndex)) 12928
    (.footer secondFooter both.activeIndex)

theorem closing_remains : ∃ k, Remains env ⟨closing, [(3, 4), (5, 6)], .busy (.rotate {}) k⟩
    (closing.volatile (Item.bytes env)) := by
  have hindexed : InOrder (write (continued.flush (Item.bytes env)) 12800 (.index both.activeIndex)) := by
    refine continued_inOrder.flush.index 0 _ rfl (by decide) fun f es h => ?_
    simp [continued, flushedDisk, framed, created, formatted, write, disk, Disk.flush, Disk.issue] at h
  have hclosing : InOrder closing :=
    hindexed.footer 0 _ _ rfl (by decide) (seen_index _ _ rfl)
  have hreach : ∃ k, Reach env (fun d m => d.MixCut (Item.bytes env) m) (CollisionFreeNow env)
      ⟨closing, [(3, 4), (5, 6)], .busy (.rotate {}) k⟩ :=
    ⟨_, (((reach_continued.step (.call _ (.rotate {}) rfl)).step
      (.effect _ rfl (.flush _))).step
      (.effect _ rfl (.write 12800 (.index both.activeIndex) _))).step
      (.effect _ rfl (.write 12928 (.footer secondFooter both.activeIndex) _))⟩
  obtain ⟨k, hreach⟩ := hreach
  exact ⟨k, hreach, Disk.volatile_mixCut _ _, hclosing.collisionFree⟩

theorem closing_seen : closing.volatile (Item.bytes env) =
    (((flushedDisk.volatile (Item.bytes env)).write 12544
      (Item.bytes env (.frame secondBlock record record))).write 12800
        (Item.bytes env (.index both.activeIndex))).write 12928
          (Item.bytes env (.footer secondFooter both.activeIndex)) := by
  rw [closing, write_seen, write_seen, Disk.flush_volatile, continued, write_seen]

theorem closing_opens : ∃ s, openReadOnly env.codecs (closing.volatile (Item.bytes env)) = .ok s ∧
    sealedState ((header 0 1).written env) secondFooter ∈ s.partitions := by
  have hindex : (Item.bytes env (.index both.activeIndex)).length = 96 := encodeIndex_length _
  have hframe := Item.bytes_frame_length env secondBlock record record
  have hfooter := Item.bytes_footer_length env secondFooter both.activeIndex
  have hrecord : record.length = 1 := rfl
  have hpart : env.partitionBase 0 = 8192 ∧ env.partitionSize = 8832 := ⟨rfl, rfl⟩
  obtain ⟨k, hremains⟩ := closing_remains
  have hmem : (12928, Item.footer secondFooter both.activeIndex) ∈ closing.issued := by
    simp [closing, write, Disk.issue]
  rw [closing_seen] at hremains ⊢
  refine sealed_opens hremains (fun a ha => ?_) ⟨?_, fun a ha => ?_⟩ hmem rfl rfl
    (Image.window_write_same _ hfooter.symm)
  · rw [Image.write_byte_out (Or.inl (by omega)), Image.write_byte_out (Or.inl (by omega)),
      Image.write_byte_out (Or.inl (by omega))]
  · rw [Image.write_size, Image.write_size, Image.write_size]
  · rw [Image.write_byte_out (by omega), Image.write_byte_out (by omega),
      Image.write_byte_out (by omega)]

theorem closing_sealsLast : SealsLastOf 1 closing.issued := by
  unfold SealsLastOf
  simp [closing, continued, flushedDisk, framed, created, formatted, disk, write, Disk.flush, Disk.issue,
    SealOrder, Item.OfGeneration]
  exact fun _ _ => UInt64.le_refl _

end Sample

/-- The footer of a partition that two writers have written covers the blocks of both. -/
theorem sample_footer_covers :
    ∃ s, openReadOnly Sample.env.codecs (Sample.closing.volatile (Item.bytes Sample.env)) = .ok s ∧
      ∃ p ∈ s.partitions, p.isSealed = true ∧
        Sample.secondBlock.sequence < p.footer.blockCount ∧
        12544 + Sample.secondBlock.frameSpan.toNat ≤
          Sample.env.partitionBase p.header.slot + p.footer.dataEnd.toNat := by
  obtain ⟨k, hremains⟩ := Sample.closing_remains
  obtain ⟨s, hopen, hp⟩ := Sample.closing_opens
  have hflushed : (12544, Item.frame Sample.secondBlock Sample.record Sample.record) ∈
      Sample.closing.flushed := by
    simp [Sample.closing, Sample.continued, Sample.write, Disk.flush, Disk.issue, Write.whole]
  exact ⟨s, hopen, _, hp, rfl, footer_covers hremains hopen hp rfl Sample.closing_sealsLast hflushed rfl⟩

/-- A block that a flush has covered lies behind the footer of its partition: the first of two footers
has come back. -/
theorem stale_footer_hides_block :
    ∃ x, Reach Sample.env (fun d m => d.FragmentCut (Item.bytes Sample.env) m)
        (CollisionFreeNow Sample.env) x ∧
      x.disk.FragmentCut (Item.bytes Sample.env) Sample.revived ∧
      CollisionFree Sample.env x.disk.issued Sample.revived ∧
      (12544, Item.frame Sample.secondBlock Sample.record Sample.record) ∈ x.disk.flushed ∧
      ∃ s, openReadOnly Sample.env.codecs Sample.revived = .ok s ∧ ∃ p ∈ s.partitions,
        p.isSealed = true ∧ p.header.generation = Sample.secondBlock.generation ∧
          ¬ Sample.secondBlock.sequence < p.footer.blockCount := by
  obtain ⟨k, hrun⟩ := Sample.reach_resealing _ Sample.headless_cut
  obtain ⟨k', hremains⟩ := Sample.revived_remains
  have hmem : (12928, Item.footer Sample.footer Sample.full.activeIndex) ∈ Sample.resealing.issued := by
    simp [Sample.resealing, Sample.resealed, Sample.sealing, Sample.write, Disk.flush, Disk.issue,
      Disk.restart]
  obtain ⟨s, hopen, hp⟩ := Sample.sealed_opens hremains (fun a ha => Sample.revived_front (by omega))
    Sample.revived_beside hmem rfl rfl Sample.revived_footer
  refine ⟨_, hrun, Sample.revived_cut, hremains.free, ?_, s, hopen, _, hp, rfl, rfl, by decide⟩
  simp [Sample.resealing, Sample.resealed, Sample.write, Disk.flush, Disk.issue, Disk.restart,
    Write.whole]

end TFDB
