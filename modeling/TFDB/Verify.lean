import TFDB.Deliver

/-!
# The writer's output passes strict verification

A strict open recomputes every structure of a partition: it compares the stored index with a scan
of the blocks, the footer with the totals of that scan, and reads every block.  All of it agrees
on a medium that holds a ring.

* `OnMedia.verifySealed` — strict verification of a sealed partition;
* `RingInv.strictSlot` — every slot passes;
* `clean_strict_open` — a strict open between two calls of a run without faults.
-/

set_option autoImplicit false

namespace TFDB

open ByteLib Writer

/-! ## A sealed partition -/

/-- An entry agrees with what is stored of it. -/
theorem sameIndexEntry_stored (e : IndexEntry) : sameIndexEntry e e.stored = true := by
  simp [sameIndexEntry, IndexEntry.stored]

theorem zipWith_sameIndexEntry (es : List IndexEntry) :
    (List.zipWith sameIndexEntry es (es.map IndexEntry.stored)).all id = true := by
  induction es with
  | nil => rfl
  | cons e es ih =>
    rw [List.map_cons, List.zipWith_cons_cons, List.all_cons, ih, sameIndexEntry_stored]
    rfl

theorem foldl_addTotals_hasTime (es : List IndexEntry) {p : PartitionState} (hp : p.hasTime = true) :
    (es.foldl addTotals p).hasTime = true := by
  induction es generalizing p with
  | nil => exact hp
  | cons e es ih => exact ih rfl

/-- The totals of the blocks are those in the footer. -/
theorem RingPartition.footer_totals (env : Env) (q : RingPartition) {h : PartitionHeader}
    (h1 : h.slot = q.header.slot) (h2 : h.generation = q.header.generation) :
    (q.footer env).flags =
        (summarize { header := h, activeIndex := q.entries }).aggregateFlags ∧
      (q.footer env).minTimeNs = (summarize { header := h, activeIndex := q.entries }).minTimeNs ∧
      (q.footer env).maxTimeNs = (summarize { header := h, activeIndex := q.entries }).maxTimeNs := by
  have hfoot : q.footer env = sealFooter env (openState h q.frames) :=
    (sealFooter_congr q.frames h1 h2).symm
  -- the end of the data is not part of the totals
  have hopen : openState h q.frames =
      { summarize { header := h, activeIndex := q.entries } with
        activeIndex := q.entries, dataEnd := q.dataEnd
        blockCount := UInt32.ofNat q.entries.length } :=
    foldl_addTotals q.entries
      { header := h, activeIndex := q.entries, blockCount := UInt32.ofNat q.entries.length }
      q.entries q.dataEnd (UInt32.ofNat q.entries.length)
  have hnone : (summarize { header := h, activeIndex := q.entries }).hasTime = false →
      (summarize { header := h, activeIndex := q.entries }).minTimeNs = 0 ∧
        (summarize { header := h, activeIndex := q.entries }).maxTimeNs = 0 := by
    intro ht
    cases he : q.entries with
    | nil => exact ⟨rfl, rfl⟩
    | cons e es =>
      rw [he, summarize_eq] at ht
      rw [List.foldl_cons, foldl_addTotals_hasTime _ rfl] at ht
      cases ht
  rw [hfoot, sealFooter, hopen]
  refine ⟨rfl, ?_, ?_⟩
  · simp only
    split
    · rfl
    · rename_i ht
      exact (hnone (Bool.eq_false_iff.mpr ht)).1.symm
  · simp only
    split
    · rfl
    · rename_i ht
      exact (hnone (Bool.eq_false_iff.mpr ht)).2.symm

section
variable {env : Env} {m : Image} (g : Geometry env) (hm : env.volume.volumeSize.toNat ≤ m.size)
  {q : RingPartition}
include g hm

/-- A scan that the footer bounds finds the blocks of the partition, whether or not the footer is
there. -/
theorem OnMedia.scanSealed (h : OnMedia env m q) (hsound : q.Sound env) {h' : PartitionHeader}
    (h1 : h'.slot = q.header.slot) (h2 : h'.generation = q.header.generation)
    (h3 : h'.options = q.header.options) :
    Rd.run (imageSource m) (scanPartition env h' (q.footer env).dataEnd.toNat) =
      .ok ⟨q.entries, (q.footer env).dataEnd.toNat, false⟩ := by
  have hlt : h'.slot < env.volume.partitionCount := by
    rw [h1]
    exact hsound.made.slotOf.lt g
  obtain ⟨hde, hle⟩ := (h.sealedBy hsound).dataEnd g
  obtain ⟨hlow, -⟩ := h.dataEnd_le g
  obtain ⟨st, hc⟩ := h.chain
  have hcur : st.cursor = (q.footer env).dataEnd.toNat := by
    rw [hde]
    exact hc.cursor_eq
  have hchain := (hc.header_congr h1 h2 h3).narrow (Nat.le_of_eq hcur)
  have hlow' : partitionHeaderRegionSize ≤ (q.footer env).dataEnd.toNat := by
    rw [hde]
    exact hlow
  have hne : (q.footer env).dataEnd.toNat ≠ 0 := by
    simp only [partitionHeaderRegionSize] at hlow'
    omega
  have hstop : st.stop false = ⟨q.entries, (q.footer env).dataEnd.toNat, false⟩ := by
    have hentries : st.entries = q.entries := hc.entries
    rw [ScanState.stop, hentries, hcur]
  unfold scanPartition
  simp only [if_neg hne]
  rw [if_neg (by omega), ← hstop]
  exact hchain.scanLoop g hm hlt (by omega) (by simp only [blockHeaderEncodedSize]; omega) _
    (by omega)

/-- The index, the scan, the footer and the blocks of a sealed partition agree. -/
theorem OnMedia.verifySealed (h : OnMedia env m q) (hsound : q.Sound env) (hs : q.isSealed = true)
    (hfits : 128 + env.maxBlockPayload < 2 ^ 32) (hl : env.Lawful)
    (hv : q.header.options.compressionVersion ≠ 0) :
    Rd.run (imageSource m) (verifySealed env (q.header.written env) (q.footer env)) = .ok () := by
  have hstate : StateOf env q (sealedState (q.header.written env) (q.footer env)) := by
    have hst := q.recovered_stateOf env
    rw [RingPartition.recovered, if_pos hs] at hst
    exact hst
  have hlt : (q.header.written env).slot < env.volume.partitionCount := hsound.made.slotOf.lt g
  have hhead : slotHeader env m (q.header.written env).slot = .ok (q.header.written env) :=
    hsound.made.slotHeader g hv h.window
  have hindex := h.loadIndex g hm hfits hsound hstate hs
  have hscan := h.scanSealed g hm hsound (show (q.header.written env).slot = _ from rfl) rfl rfl
  obtain ⟨hin, hread⟩ := h.listed_reads g hsound hstate hl
  rw [RingPartition.listed, if_pos hs] at hin hread
  have hblocks := (run_verifyBlocks (p := sealedState (q.header.written env) (q.footer env)) g hm hlt
    hhead _ hin).mpr hread
  obtain ⟨t1, t2, t3⟩ := q.footer_totals env (h := q.header.written env) rfl rfl
  simp only [TFDB.verifySealed, Rd.run_bind, hindex, Rd.bind_ok, hscan]
  rw [if_neg, zipWith_sameIndexEntry, if_neg (fun hx => hx rfl), if_neg]
  · exact hblocks
  · rintro (hx | hx | hx)
    · exact hx t1
    · exact hx t2
    · exact hx t3
  · rintro (hx | hx)
    · exact hx rfl
    · exact hx (List.length_map ..).symm

/-- A sealed partition passes. -/
theorem OnMedia.strictSlot_sealed (h : OnMedia env m q) (hsound : q.Sound env)
    (hs : q.isSealed = true) (hfits : 128 + env.maxBlockPayload < 2 ^ 32) (hl : env.Lawful)
    (hv : q.header.options.compressionVersion ≠ 0) : StrictSlot env m q.header.slot := by
  have hlt : (q.header.written env).slot < env.volume.partitionCount := hsound.made.slotOf.lt g
  have hh := hsound.made.slotHeader g hv h.window
  have hfoot : Rd.run (imageSource m) (readFooter env (q.header.written env)) =
      .ok (q.footer env) := by
    have hw : m.window (env.partitionBase (q.header.written env).slot + env.footerOffset)
        partitionFooterEncodedSize = encodePartitionFooter (q.footer env) := h.footer hs
    rw [run_readFooter g hm hlt, hw]
    exact (h.sealedBy hsound).accepted g rfl rfl
  refine ⟨slotDamaged_of_ok hh, fun h' hh' => ?_⟩
  obtain rfl : q.header.written env = h' := Except.ok.inj (hh.symm.trans hh')
  refine ⟨sealedState (q.header.written env) (q.footer env), ?_⟩
  simp only [recoverPartition, Rd.run_bind, Rd.run_attempt, Rd.bind_ok, hfoot, if_true,
    h.verifySealed g hm hsound hs hfits hl hv, Rd.run_pure]

end

/-! ## The slots of the ring -/

/-- No header position, footer position or first block position carries this volume's ID. -/
def Unmarked (env : Env) (m : Image) : Prop :=
  ∀ slot < env.volume.partitionCount, slotEvidence env m slot = false

/-- No footer position holds a footer of an unsupported version. -/
def QuietFooters (env : Env) (m : Image) : Prop :=
  ∀ slot < env.volume.partitionCount, ∀ e,
    decodePartitionFooter (m.window (env.partitionBase slot + env.footerOffset)
      partitionFooterEncodedSize) = .error e → e.code ≠ .unsupported

/-- A footer is refused by its decoder or because it belongs elsewhere. -/
theorem acceptFooter_error {env : Env} {h : PartitionHeader} {bytes : Bytes} {e : Status}
    (ha : acceptFooter env h bytes = .error e) :
    decodePartitionFooter bytes = .error e ∨ e.code = .corrupt := by
  unfold acceptFooter at ha
  cases hd : decodePartitionFooter bytes with
  | error e' =>
    rw [hd] at ha
    exact Or.inl ha
  | ok f =>
    rw [hd] at ha
    simp only [bind, Except.bind] at ha
    split at ha
    · obtain rfl := Except.error.inj ha
      exact Or.inr rfl
    · cases ha

section
variable {env : Env} {prior : Image} {d : Disk Item} (g : Geometry env) (hr : RingInv env prior d)
include g hr

omit g in
/-- The footer position of the newest partition holds what was there before, or the footer of an
older partition. -/
theorem RingInv.footer_quiet (hquiet : QuietFooters env prior) {slot : UInt32}
    (hs : slot < env.volume.partitionCount) (h : PartitionHeader) (hh : h.slot = slot) {e : Status}
    (hf : slotFooter env (d.volatile (Item.bytes env)) h = .error e) : e.code ≠ .unsupported := by
  subst hh
  unfold slotFooter at hf
  rcases acceptFooter_error hf with hd | hc
  · rcases hr.footed h.slot hs with hw | ⟨f, es, hi, hw⟩
    · rw [hw] at hd
      exact hquiet h.slot hs e hd
    · rw [hw, (hr.footers _ f es hi).1] at hd
      cases hd
  · rw [hc]
    exact fun hx => by cases hx

/-- An unused slot is as it was before the format. -/
theorem RingInv.slotEvidence_unused {slot : UInt32} (hs : slot < env.volume.partitionCount)
    (hun : ∀ q ∈ ringOf d.issued, q.header.slot ≠ slot) :
    slotEvidence env (d.volatile (Item.bytes env)) slot = slotEvidence env prior slot := by
  obtain ⟨hregion, hheader, hfooter, hblock, -, -, -, hbegin, hoff, hsum⟩ := slot_parts g
  have hwin : ∀ o n, o + n ≤ env.partitionSize →
      (d.volatile (Item.bytes env)).window (env.partitionBase slot + o) n =
        prior.window (env.partitionBase slot + o) n := by
    intro o n hle
    exact Image.window_congr fun a h1 h2 => hr.unused slot hs hun a (by omega) (by omega)
  unfold slotEvidence
  have h0 := hwin 0 partitionHeaderEncodedSize (by omega)
  rw [Nat.add_zero] at h0
  rw [h0, hwin env.footerOffset partitionFooterEncodedSize (by omega),
    hwin partitionHeaderRegionSize blockHeaderEncodedSize (by omega)]

/-- Every slot of a volume that holds a ring passes strict verification. -/
theorem RingInv.strictSlot (hm : env.volume.volumeSize.toNat ≤ prior.size)
    (hc : CollisionFreeNow env d) (hv : ∀ q ∈ ringOf d.issued, q.header.options.compressionVersion ≠ 0)
    (hfits : env.SpanFits) (hl : env.Lawful) (hun : Unmarked env prior)
    (hquiet : QuietFooters env prior) {slot : UInt32} (hs : slot < env.volume.partitionCount) :
    StrictSlot env (d.volatile (Item.bytes env)) slot := by
  have hm' : env.volume.volumeSize.toNat ≤ (d.volatile (Item.bytes env)).size := by
    rw [hr.size]
    exact hm
  by_cases hq : ∀ q ∈ ringOf d.issued, q.header.slot ≠ slot
  · obtain ⟨e, he⟩ := hr.slotHeader_unused g hc hs hq
    exact strictSlot_empty he ((hr.slotEvidence_unused g hs hq).trans (hun slot hs))
  · push Not at hq
    obtain ⟨q, hq, rfl⟩ := hq
    have hmedia := hr.media q hq
    have hsound := hr.sound q hq
    cases hseal : q.isSealed with
    | true => exact hmedia.strictSlot_sealed g hm' hsound hseal hfits.payload hl (hv q hq)
    | false =>
      obtain ⟨st, hch⟩ := hmedia.chain
      cases hf : slotFooter env (d.volatile (Item.bytes env)) (q.header.written env) with
      | ok f => exact absurd hf (hr.slotFooter_open g hc hq hseal)
      | error e =>
        refine (strictSlot_footerless g hm' hs (hr.slotHeader g hq (hv q hq)) hf
          (hr.footer_quiet hquiet hs (q.header.written env) rfl hf)
          (hch.header_congr (show (q.header.written env).slot = _ from rfl) rfl rfl)
          ((hr.stuck g hc hq hch).header_congr rfl rfl rfl) ?_).1
        intro f hfm
        obtain ⟨k, hk, rfl⟩ := List.mem_map.mp hfm
        exact ⟨k.raw, hsound.decodes hl k hk⟩

/-- A store opened on a volume that holds a ring delivers the ring. -/
theorem RingInv.openedQuery (hm : env.volume.volumeSize.toNat ≤ prior.size)
    (hc : CollisionFreeNow env d) (hv : ∀ q ∈ ringOf d.issued, q.header.options.compressionVersion ≠ 0)
    (hfits : env.SpanFits) (hl : env.Lawful) (hun : Unmarked env prior)
    (hquiet : QuietFooters env prior) (o : OpenOptions) (id : UInt64 × UInt64) {qy : Query}
    (hq : qy.Total) (hvalid : qy.Valid) :
    ReadProg.run (imageSource (d.volatile (Item.bytes env)))
        ((openedStore env (d.volatile (Item.bytes env)) o id).query qy) =
      (({} : QueryState).deliverAll (ringEvents env qy (ringOf d.issued)), {}) := by
  have hm' : env.volume.volumeSize.toNat ≤ (d.volatile (Item.bytes env)).size := by
    rw [hr.size]
    exact hm
  have hclean : (openedStore env (d.volatile (Item.bytes env)) o id).corruptSlots = [] := by
    refine List.filter_eq_nil_iff.mpr fun slot hs => ?_
    rw [(hr.strictSlot g hm hc hv hfits hl hun hquiet (mem_slotList.mp hs)).1]
    exact Bool.false_ne_true
  rw [Store.query, hclean]
  exact ring_query g hm' hr.media hr.sound hfits hl (hr.states g hm hc hv) hr.order hv hq hvalid

/-- A strict open of a volume that holds a ring. -/
theorem RingInv.recover_strict (hm : env.volume.volumeSize.toNat ≤ prior.size)
    (hc : CollisionFreeNow env d) (hv : ∀ q ∈ ringOf d.issued, q.header.options.compressionVersion ≠ 0)
    (hfits : env.SpanFits) (hl : env.Lawful) (hun : Unmarked env prior)
    (hquiet : QuietFooters env prior) {o : OpenOptions} (hstrict : o.verifyPayloadsOnOpen = true)
    (ho : o.codecs = env.codecs) {random : Except Status (UInt64 × UInt64)} {id : UInt64 × UInt64}
    (hid : prepareWriter env o random = .ok id) :
    Rd.run (imageSource (d.volatile (Item.bytes env)))
        (recover (d.volatile (Item.bytes env)).size o random) =
      .ok (openedStore env (d.volatile (Item.bytes env)) o id) := by
  have hm' : env.volume.volumeSize.toNat ≤ (d.volatile (Item.bytes env)).size := by
    rw [hr.size]
    exact hm
  exact recover_strict_isOk g hm' (hr.readVolumeHeader g hm) ho hstrict hid
    (fun slot hs => hr.strictSlot g hm hc hv hfits hl hun hquiet hs) (hr.generationsOk g hm hc hv)

end

/-! ## Strict opens between two calls -/

/-- A strict read-only open of the medium succeeds and delivers the blocks that were written and not
evicted, and the catalog of a live writer lists the same blocks. -/
structure StrictlyReadable (env : Env) (d : Disk Item) (so : Option Store) : Prop where
  opens : ∀ (o : OpenOptions) (random : Except Status (UInt64 × UInt64)), o.writable = false →
    o.verifyPayloadsOnOpen = true → o.codecs = env.codecs →
    ∃ s, Rd.run (imageSource (d.volatile (Item.bytes env)))
        (recover (d.volatile (Item.bytes env)).size o random) = .ok s ∧
      scanBlocks s (d.volatile (Item.bytes env)) =
        (({} : QueryState).deliverAll (ringEvents env {} (ringOf d.issued)), {})
  catalog : ∀ s, so = some s → s.faulted = false →
    ReadProg.run (imageSource (d.volatile (Item.bytes env))) (query env {} s.partitions []) =
      (({} : QueryState).deliverAll (ringEvents env {} (ringOf d.issued)), {})

/-- A strict open that succeeds has found no header with version 0. -/
theorem RingInv.strict_version {env : Env} {prior : Image} {d : Disk Item} (hr : RingInv env prior d)
    (g : Geometry env) (hm : env.volume.volumeSize.toNat ≤ prior.size) {o : OpenOptions}
    (hstrict : o.verifyPayloadsOnOpen = true) (ho : o.codecs = env.codecs)
    {random : Except Status (UInt64 × UInt64)} {s : Store}
    (hrun : Rd.run (imageSource (d.volatile (Item.bytes env)))
      (recover (d.volatile (Item.bytes env)).size o random) = .ok s) {q : RingPartition}
    (hq : q ∈ ringOf d.issued) : q.header.options.compressionVersion ≠ 0 := by
  have hm' : env.volume.volumeSize.toNat ≤ (d.volatile (Item.bytes env)).size := by
    rw [hr.size]
    exact hm
  have hvol := hr.readVolumeHeader g hm
  obtain ⟨⟨id, -, hs⟩, -⟩ := recover_ok g hm' (fun v hv => by
    rw [hvol] at hv
    exact (Except.ok.inj hv).symm) ho hrun
  obtain ⟨-, -, -, -, -, -, r, hslots⟩ := recover_inv hrun
  have henv : s.env = env := by
    rw [hs]
    rfl
  rw [henv, hstrict, recoverSlots_strict_iff g hm' _ fun slot hs => mem_slotList.mp hs] at hslots
  have hlt := (hr.sound q hq).made.slotOf.lt g
  exact hr.version g hq (hslots.2 q.header.slot (mem_slotList.mpr hlt)).1

/-- **A strict open between two calls of a run without faults** succeeds and delivers exactly the
published retained blocks, unless a retained partition uses version 0 of a registered codec, which no
reader accepts. -/
theorem clean_strict_open {env : Env} {prior : Image} {d : Disk Item} {so : Option Store}
    (h : Clean env prior (CollisionFreeNow env) d so) (hc : CollisionFreeNow env d)
    (hfits : env.SpanFits) (hl : env.Lawful) (hun : Unmarked env prior)
    (hquiet : QuietFooters env prior) :
    StrictlyReadable env d so ↔
      ∀ q ∈ ringOf d.issued, q.header.options.compressionVersion ≠ 0 := by
  obtain ⟨g, hsize, hr, hstore⟩ := h.ring fun _ hd => hd
  have hm := Nat.le_of_eq hsize
  have hm' : env.volume.volumeSize.toNat ≤ (d.volatile (Item.bytes env)).size := by
    rw [hr.size]
    exact hm
  constructor
  · intro hread q hq
    obtain ⟨s, hrun, -⟩ := hread.opens { verifyPayloadsOnOpen := true, codecs := env.codecs }
      (.ok (0, 0)) rfl rfl rfl
    exact hr.strict_version g hm rfl rfl hrun hq
  · intro hv
    constructor
    · intro o random hro hstrict ho
      have hid : prepareWriter env o random = .ok (0, 0) := by
        rw [prepareWriter, hro]
        rfl
      refine ⟨_, hr.recover_strict g hm hc hv hfits hl hun hquiet hstrict ho hid, ?_⟩
      exact hr.openedQuery g hm hc hv hfits hl hun hquiet o (0, 0) scan_total fun r hr => by cases hr
    · intro s hs _
      obtain ⟨-, -, hcat, -⟩ := hstore s hs
      exact ring_query g hm' hr.media hr.sound hfits hl hcat.states hr.order hv scan_total
        fun r hr => by cases hr

namespace Sample

theorem unmarked : Unmarked env image :=
  fun _ _ => slotEvidence_foreign blank_byte blank_byte blank_byte

theorem quietFooters : QuietFooters env image := by
  intro slot _ e he
  obtain ⟨text, ht⟩ := (foreign_window (n := partitionFooterEncodedSize)
    (show image.byte (env.partitionBase slot + env.footerOffset) ≠ magicByte from
      blank_byte)).decodePartitionFooter
  rw [ht] at he
  obtain rfl := Except.error.inj he
  exact fun hx => by cases hx

theorem spanFits : env.SpanFits := ⟨256, rfl, by decide⟩

theorem lawful : env.Lawful := fun _ hc => by cases hc

theorem clean_opened : Clean env image (CollisionFreeNow env) created (some opened) := by
  refine @Clean.opened _ _ _ _ _ recovered _
    (Clean.formatted (o := options) formats (by decide) (by decide))
    formatted_inOrder.collisionFree openOptions (.ok (3, 4)) rfl rfl ?_ ?_ exec_open
  · exact fun h => absurd (Except.ok.inj h) (by decide)
  · rw [← recovered_eq]
    exact formatted_blank.recover geometry rfl rfl rfl

theorem clean_rotated : Clean env image (CollisionFreeNow env) rotated (some final) :=
  (((clean_opened.called _ exec_append).called _ exec_publish).called _ exec_checkpoint).called _
    exec_rotate

end Sample

/-- The sample run, with a sealed and an open partition, passes. -/
theorem sample_strict_open : StrictlyReadable Sample.env Sample.rotated (some Sample.final) := by
  refine (clean_strict_open Sample.clean_rotated Sample.rotated_inOrder.collisionFree Sample.spanFits
    Sample.lawful Sample.unmarked Sample.quietFooters).mpr ?_
  decide

/-! ## A codec of version 0 -/

/-- The codecs have nothing to do with the marks of a volume. -/
theorem slotEvidence_codecs (env : Env) (codecs : List CompressionCodec) (m : Image) (slot : UInt32) :
    slotEvidence { env with codecs := codecs } m slot = slotEvidence env m slot := by
  unfold slotEvidence
  rfl

namespace Sample

/-- A registered codec that stores the bytes as they are, under version 0. -/
def versionZero : CompressionCodec := { noCompressionCodec with id := ⟨9⟩, version := 0 }

def zeroEnv : Env := { env with codecs := [versionZero] }

def zeroOptions : PartitionOptions := { compression := ⟨9⟩, compressionVersion := 0 }

def zeroHeader : PartitionHeader := Writer.newHeader zeroEnv 0 1 zeroOptions

def zeroRecovered : Store := { recovered with env := zeroEnv, nextOptions := zeroOptions }

def zeroOpened : Store := { zeroRecovered with
  partitions := [{ header := zeroHeader }], activeGeneration := 1
  metrics := { syncCalls := 1 } }

def zeroCreated : Disk Item := (write formatted 8192 (.header zeroHeader)).flush (Item.bytes env)

theorem exec_zeroOpen : (startWriter zeroRecovered).exec (Item.bytes zeroEnv) formatted =
    ((.ok (), zeroOpened), zeroCreated) := by
  have h : (startWriter zeroRecovered).exec (Item.bytes zeroEnv) formatted =
    ((.ok (), { zeroOpened with
      partitions := sortPartitions [{ header := zeroHeader }] }), zeroCreated) := rfl
  rw [h, sort_single]
  rfl

theorem formatted_collisionFree_zero : CollisionFreeNow zeroEnv formatted := by
  obtain ⟨h1, h2, h3, h4, h5⟩ := formatted_inOrder.collisionFree
  exact ⟨h1, h2, h3, h4, h5⟩

theorem zeroGeometry : Geometry zeroEnv :=
  (@formatHeader_geometry _ _ _ zeroEnv (by decide) (by decide) formats).1

theorem zero_bytes : Item.bytes zeroEnv = Item.bytes env := by
  funext i
  cases i <;> rfl

theorem formatted_blank_zero : Blank zeroEnv (formatted.volatile (Item.bytes zeroEnv)) := by
  rw [zero_bytes]
  obtain ⟨h1, h2, h3, h4⟩ := formatted_blank
  refine ⟨h1, h2, h3, fun slot hs => ⟨(h4 slot hs).1, ?_⟩⟩
  rw [← (h4 slot hs).2, zeroEnv, slotEvidence_codecs]

theorem zeroRecovered_eq : recoveredStore zeroEnv
    { writable := true, nextPartition := zeroOptions, codecs := [versionZero] } (3, 4) {} =
      zeroRecovered := by
  unfold recoveredStore sortPartitions
  simp only [List.mergeSort_nil]
  rfl

theorem zeroSpanFits : zeroEnv.SpanFits := ⟨256, rfl, by decide⟩

theorem zeroLawful : zeroEnv.Lawful := by
  intro c hc x y _ h
  obtain rfl := List.mem_singleton.mp hc
  obtain rfl := Except.ok.inj h
  exact if_neg fun hx => hx rfl

theorem clean_zeroOpened :
    Clean zeroEnv image (CollisionFreeNow zeroEnv) zeroCreated (some zeroOpened) := by
  refine @Clean.opened _ _ _ _ _ zeroRecovered _
    (Clean.formatted (o := options) formats (by decide) (by decide)) formatted_collisionFree_zero
    { writable := true, nextPartition := zeroOptions, codecs := [versionZero] } (.ok (3, 4))
    rfl rfl ?_ ?_ exec_zeroOpen
  · exact fun h => absurd (Except.ok.inj h) (by decide)
  · rw [← zeroRecovered_eq]
    exact formatted_blank_zero.recover zeroGeometry rfl rfl rfl

end Sample

/-- A writable open accepts a codec of version 0, and no strict open reads the partition it creates. -/
theorem version_zero_not_readable :
    Sample.zeroEnv.SpanFits ∧ Sample.zeroEnv.Lawful ∧
      Clean Sample.zeroEnv Sample.image (CollisionFreeNow Sample.zeroEnv) Sample.zeroCreated
        (some Sample.zeroOpened) ∧
      ∀ (o : OpenOptions) (random : Except Status (UInt64 × UInt64)) (s : Store),
        o.verifyPayloadsOnOpen = true → o.codecs = Sample.zeroEnv.codecs →
        Rd.run (imageSource (Sample.zeroCreated.volatile (Item.bytes Sample.zeroEnv)))
          (recover (Sample.zeroCreated.volatile (Item.bytes Sample.zeroEnv)).size o random) ≠
            .ok s := by
  refine ⟨Sample.zeroSpanFits, Sample.zeroLawful, Sample.clean_zeroOpened,
    fun o random s hstrict ho hrun => ?_⟩
  obtain ⟨g, hsize, hr, -⟩ := Sample.clean_zeroOpened.ring fun _ hd => hd
  exact hr.strict_version g (Nat.le_of_eq hsize) hstrict ho hrun (q := { header := Sample.zeroHeader })
    (List.mem_singleton_self _) rfl

end TFDB
