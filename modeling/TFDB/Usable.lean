import TFDB.Capacity
import TFDB.Verify

/-!
# Every geometry can be used

`format` takes any block payload below `2 ^ 32`, and every other check of the geometry is made over
64 bits.  A frame is longer than its payload: its length and the limit it is compared with are
computed over 32 bits.

* `OnMedia.fits` — the newest partition has the capacity its blocks left;
* `Clean.standing` — a store of a run without faults is live, faulted or closed, and a live one has
  the capacity its records need;
* `geometry_usable` — if the longest frame has a length of 32 bits, accepted records can be emitted
  and the index and the blocks of every sealed partition are accepted;
* `wide_geometry_unusable` — a block payload of `2 ^ 32 - 1` makes every index unreadable.
-/

set_option autoImplicit false

namespace TFDB

open ByteLib Writer

section
variable {env : Env} {prior : Image}

/-- What the blocks of an open partition leave. -/
theorem OnMedia.fits {m : Image} {q : RingPartition} {p : PartitionState} (h : OnMedia env m q)
    (g : Geometry env) (hs : q.Sound env) (hp : StateOf env q p) (ho : q.isSealed = false) :
    Fits env p := by
  have hcount := hs.fits
  simp only [indexEntryEncodedSize] at hcount
  have hlen : q.entries.length = q.blocks.length := by
    rw [RingPartition.entries, chainEntries_length, q.frames_length]
  refine ⟨?_, ?_, fun hnil => ?_⟩
  · rw [hp.dataEnd ho]
    exact (h.dataEnd_le g).2
  · rw [hp.activeIndex ho, hlen]
    simp only [indexEntryEncodedSize]
    omega
  · rw [hp.activeIndex ho] at hnil
    rw [hnil] at hlen
    have hblocks := List.eq_nil_of_length_eq_zero hlen.symm
    rw [hp.dataEnd ho, RingPartition.dataEnd, RingPartition.frames, hblocks]
    rfl

/-- What a call can find in a run without faults. -/
structure Attended (env : Env) (s : Store) : Prop where
  standing : Standing env s
  reserved : Live env s → Reserved env s

/-- Without a damaged slot, the partitions a scan recovers are those of the ring. -/
theorem RingInv.slotStates_fit {d : Disk Item} (hr : RingInv env prior d) (g : Geometry env)
    (hm : env.volume.volumeSize.toNat ≤ prior.size) (hc : CollisionFreeNow env d)
    (hd : (slotList env).filter (slotDamaged env (d.volatile (Item.bytes env))) = [])
    {p : PartitionState} (hp : p ∈ slotStates env (d.volatile (Item.bytes env)))
    (ho : p.isSealed = false) : Fits env p := by
  have hv : ∀ q ∈ ringOf d.issued, q.header.options.compressionVersion ≠ 0 := by
    intro q hq
    have hlt := (hr.sound q hq).made.slotOf.lt g
    rw [List.filter_eq_nil_iff] at hd
    exact hr.version g hq (Bool.eq_false_iff.mpr (hd _ (mem_slotList.mpr hlt)))
  rw [hr.mem_slotStates g hm hc hv] at hp
  obtain ⟨q, hq, rfl⟩ := List.mem_map.mp hp
  rw [q.recovered_isSealed] at ho
  exact (hr.media q hq).fits g (hr.sound q hq) (q.recovered_stateOf env) ho

section
variable {d d' : Disk Item} (hr : RingInv env prior d) (g : Geometry env)
  (hm : env.volume.volumeSize.toNat ≤ prior.size) {o : OpenOptions}
  {random : Except Status (UInt64 × UInt64)} (hw : o.writable = true)
  (hcodecs : o.codecs = env.codecs) (hrandom : random ≠ .ok (0, 0)) {s t : Store}
  (hrec : Rd.run (imageSource (d.volatile (Item.bytes env)))
    (recover (d.volatile (Item.bytes env)).size o random) = .ok s)
  (he : (TFDB.startWriter s).exec (Item.bytes env) d = ((.ok (), t), d'))
include hr g hm hw hcodecs hrandom hrec he

/-- An open that succeeds leaves a live store. -/
theorem RingInv.openedLive : Live env t := by
  have hvol := hr.readVolumeHeader g hm
  obtain ⟨⟨id, hid, rfl⟩, -, hgen⟩ := recover_ok g (by rw [hr.size]; exact hm) (fun v hv => by
    rw [hvol] at hv
    exact (Except.ok.inj hv).symm) hcodecs hrec
  have hlive := (stops_startWriter hw (prepareWriter_nonzero hw hrandom hid) (prepareWriter_ok hw hid)
    hgen).exec (Item.bytes env) d
  rw [he] at hlive
  exact hlive rfl

theorem RingInv.attended (hc : CollisionFreeNow env d) : Attended env t := by
  have hvol := hr.readVolumeHeader g hm
  refine ⟨.live (hr.openedLive g hm hw hcodecs hrandom hrec he), fun _ => ?_⟩
  obtain ⟨⟨id, hid, rfl⟩, -, hgen⟩ := recover_ok g (by rw [hr.size]; exact hm) (fun v hv => by
    rw [hvol] at hv
    exact (Except.ok.inj hv).symm) hcodecs hrec
  have hres := (@startWriter_reserved env g _ o id hw (prepareWriter_ok hw hid) hgen fun hd p hp ho =>
    hr.slotStates_fit g hm hc hd hp ho).exec (Item.bytes env) d
  rw [he] at hres
  exact hres rfl

end

theorem Clean.attended {assumed : Disk Item → Prop} (hassumed : ∀ d, assumed d → CollisionFreeNow env d)
    {d : Disk Item} {so : Option Store} (h : Clean env prior assumed d so) :
    ∀ s, so = some s → Attended env s := by
  induction h with
  | formatted => exact fun s hs => (by cases hs)
  | opened h ha hw hcodecs hrandom hrec he ih =>
    intro s hs
    cases hs
    obtain ⟨g, hsize, hr, -⟩ := h.ring hassumed
    exact hr.attended g (Nat.le_of_eq hsize) hw hcodecs hrandom hrec he (hassumed _ ha)
  | openFailed => exact fun s hs => (by cases hs)
  | @called d d' s t h op r he ih =>
    intro s' hs
    cases hs
    obtain ⟨hst, hres⟩ := ih s rfl
    have g := (h.ring hassumed).geometry
    have h1 := (hst.program g op).exec (Item.bytes env) d
    have h2 := (capable_program g hst hres op).exec (Item.bytes env) d
    rw [he] at h1 h2
    exact ⟨h1.standing, h2⟩
  | destroyed => exact fun s hs => (by cases hs)

end

/-! ## The property -/

/-- What a usable geometry gives a store over its medium. -/
structure Usable (env : Env) (d : Disk Item) (s : Store) : Prop where
  /-- An undisturbed `emit_builder` writes the accepted records, unless the codec fails. -/
  emit : Up s → Wr.Stops Latched (fun r t => (r = .ok () ∧ t.builder = []) ∨
    ∃ p st, r = .error st ∧ s.active = some p ∧
      packBuilder env p.header.options s.builder = .error st) emitBuilder s
  /-- So does every call that emits them. -/
  calls : Up s → ∀ op, Wr.Stops Latched (fun r _ => ∀ st, r = .error st → Refused env op st ∨
    (∃ p, s.active = some p ∧ packBuilder env p.header.options s.builder = .error st) ∨
    (AtEnd s ∧ st = exhausted)) op.program s
  /-- The index and the blocks of a sealed partition are accepted. -/
  sealing : ∀ p ∈ s.partitions, p.isSealed = true → ∃ entries,
    Rd.run (imageSource (d.volatile (Item.bytes env))) (loadIndex env p) = .ok entries ∧
    (p.header.options.compressionVersion ≠ 0 → ∀ e ∈ entries, ∃ block,
      Rd.run (imageSource (d.volatile (Item.bytes env))) (readBlock env p e) = .ok block)
  /-- The sum of the length of a block header and a payload does not wrap. -/
  sums : ∀ n : UInt32, n ≤ env.volume.maxBlockPayload → (128 + n).toNat = 128 + n.toNat
  /-- Every payload in the ring is within the limit. -/
  payloads : ∀ q ∈ ringOf d.issued, ∀ k ∈ q.blocks,
    k.header.storedSize ≤ env.volume.maxBlockPayload

theorem Env.SpanFits.sum {env : Env} (h : env.SpanFits) {n : UInt32}
    (hn : n ≤ env.volume.maxBlockPayload) : (128 + n).toNat = 128 + n.toNat := by
  have hmax : 128 + env.volume.maxBlockPayload.toNat < 2 ^ 32 := h.payload
  have hle := UInt32.le_iff_toNat_le.mp hn
  have h128 : (128 : UInt32).toNat = 128 := rfl
  rw [UInt32.toNat_add, h128]
  omega

section
variable {env : Env} {prior : Image}

theorem Chain.stored_le {m : Image} {h : PartitionHeader} {limit : Nat} {st st' : ScanState}
    {fs : List (BlockHeader × Bytes)} (hc : Chain env m h limit st fs st') :
    ∀ f ∈ fs, f.1.storedSize ≤ env.volume.maxBlockPayload := by
  induction hc with
  | nil => exact fun f hf => (by cases hf)
  | cons hframe hc ih =>
    intro f hf
    rcases List.mem_cons.mp hf with rfl | hf
    · exact hframe.accepted.stored_le
    · exact ih f hf

/-- The blocks of a sealed partition are accepted by `read_block`. -/
theorem OnMedia.read {m : Image} (g : Geometry env) (hm : env.volume.volumeSize.toNat ≤ m.size)
    {q : RingPartition} {p : PartitionState} (h : OnMedia env m q) (hsound : q.Sound env)
    (hp : StateOf env q p) (hl : env.Lawful) (hv : p.header.options.compressionVersion ≠ 0) :
    ∀ e ∈ q.listed, ∃ block, Rd.run (imageSource m) (readBlock env p e) = .ok block := by
  intro e he
  have hslot : p.header.slot < env.volume.partitionCount := by
    rw [hp.slot]
    exact hsound.made.slotOf.lt g
  have hheader := hsound.made.slotHeader g (hp.options ▸ hv) h.window
  rw [← hp.slot] at hheader
  obtain ⟨hin, hread⟩ := h.listed_reads g hsound hp hl
  obtain ⟨metadata, decoded, ho⟩ := hread e he
  refine ⟨(metadata, decoded), ?_⟩
  rw [run_readBlock g hm hslot hheader hp.generation.symm (hin e he), ho]

/-- **A geometry whose longest frame has a length of 32 bits is usable.**  In every run without
faults an undisturbed call emits the records accepted before it unless the codec fails, and the
index of every sealed partition is accepted, and its blocks unless its header names version 0 of a
registered codec. -/
theorem geometry_usable {d : Disk Item} {s : Store}
    (h : Clean env prior (CollisionFreeNow env) d (some s)) (hfits : env.SpanFits) (hl : env.Lawful)
    (hf : s.faulted = false) : Usable env d s := by
  obtain ⟨g, hsize, hr, hstore⟩ := h.ring fun _ hd => hd
  have hm : env.volume.volumeSize.toNat ≤ (d.volatile (Item.bytes env)).size := by
    rw [hr.size]
    exact Nat.le_of_eq hsize
  have hat := h.attended (fun _ hd => hd) s rfl
  have hlive (hup : Up s) : Live env s := by
    cases hat.standing with
    | live hl => exact hl
    | faulted hx =>
      rw [hx.faulted] at hf
      cases hf
    | closed hc =>
      rw [hup.opened] at hc
      cases hc
  constructor
  · intro hup
    have hlive := hlive hup
    refine stops_emitBuilder g hlive (fun t _ hb _ _ => Or.inl ⟨rfl, hb⟩) fun st t _ hcause => ?_
    obtain ⟨p, hp, hpack⟩ := hcause.of_reserved (hat.reserved hlive) hfits
    exact Or.inr ⟨p, st, rfl, hp, hpack⟩
  · intro hup op
    have hlive := hlive hup
    refine (stops_program g hlive op).mono fun r t hend st hres => ?_
    cases hend with
    | accepted _ _ => cases hres
    | closed _ _ => cases hres
    | refused _ _ hrefused =>
      cases hres
      exact Or.inl hrefused
    | faulted _ hc =>
      cases hres
      exact Or.inr (hc.of_reserved (hat.reserved hlive) hfits)
  · intro p hp hs
    obtain ⟨-, -, hcat, -⟩ := hstore s rfl
    obtain ⟨q, hq, hpq⟩ := forall₂_mem_right hcat.states hp
    have hqs : q.isSealed = true := hpq.isSealed ▸ hs
    refine ⟨_, (hr.media q hq).loadIndex g hm hfits.payload (hr.sound q hq) hpq hqs, ?_⟩
    intro hv e he
    refine (hr.media q hq).read g hm (hr.sound q hq) hpq hl hv e ?_
    rw [RingPartition.listed, if_pos hqs]
    exact he
  · exact fun n hn => hfits.sum hn
  · intro q hq k hk
    obtain ⟨st, hch⟩ := (hr.media q hq).chain
    exact hch.stored_le _ (List.mem_map.mpr ⟨k, hk, rfl⟩)

end

/-- The sample geometry is usable, here with a sealed and an open partition. -/
theorem sample_usable : Usable Sample.env Sample.rotated Sample.final :=
  geometry_usable Sample.clean_rotated Sample.spanFits Sample.lawful rfl

/-! ## A wrapped limit -/

/-- If the limit of the frame length wraps, no entry passes. -/
theorem checkEntries_wrapped {env : Env} (h : 128 + env.volume.maxBlockPayload < 128) (i off : Nat)
    (e : IndexEntry) (es : List IndexEntry) {n : Nat} : checkEntries env i off (e :: es) ≠ .ok n := by
  have hlimit : e.frameSize < 128 ∨ e.frameSize > 128 + env.volume.maxBlockPayload := by
    rcases Nat.lt_or_ge e.frameSize.toNat 128 with hlt | hge
    · exact Or.inl (UInt32.lt_iff_toNat_lt.mpr hlt)
    · exact Or.inr (UInt32.lt_iff_toNat_lt.mpr
        (Nat.lt_of_lt_of_le (UInt32.lt_iff_toNat_lt.mp h) hge))
  unfold checkEntries
  rw [if_pos (by rcases hlimit with h | h <;> simp [h])]
  exact fun hx => (by cases hx)

/-- No index with an entry is accepted then, whatever the medium returns. -/
theorem loadIndex_wrapped {env : Env} (h : 128 + env.volume.maxBlockPayload < 128)
    (src : Source Status) {p : PartitionState} (hs : p.isSealed = true)
    (hsize : p.footer.indexSize ≠ 0) (hcount : p.footer.blockCount ≠ 0) {es : List IndexEntry} :
    Rd.run src (loadIndex env p) ≠ .ok es := by
  intro hrun
  unfold loadIndex at hrun
  rw [if_neg (by simp [hs]), if_neg hsize, Rd.run_bind] at hrun
  obtain ⟨bytes, -, hlift⟩ := bind_ok_inv hrun
  rw [Rd.run_lift, acceptIndex] at hlift
  split at hlift
  · cases hlift
  obtain ⟨entries, -, hlift⟩ := bind_ok_inv hlift
  split at hlift
  · cases hlift
  rename_i hlen
  cases entries with
  | nil => exact hlen (fun h0 => hcount (UInt32.toNat_inj.mp h0.symm))
  | cons e es =>
    obtain ⟨n, hn, -⟩ := bind_ok_inv hlift
    exact checkEntries_wrapped h _ _ _ _ hn

/-- A formatted image without a magic number outside its volume header is blank. -/
theorem RingInv.blank {env : Env} {prior : Image} {d : Disk Item} (hr : RingInv env prior d)
    (g : Geometry env) (hm : env.volume.volumeSize.toNat ≤ prior.size)
    (hnil : ringOf d.issued = []) (hz : ∀ x, prior.byte x ≠ magicByte) :
    Blank env (d.volatile (Item.bytes env)) := by
  have hroom := g.room
  have hbyte {slot : UInt32} (hs : slot < env.volume.partitionCount) {o : Nat}
      (ho : o < env.partitionSize) :
      (d.volatile (Item.bytes env)).byte (env.partitionBase slot + o) ≠ magicByte := by
    rw [hr.unused slot hs (by rw [hnil]; exact fun q hq => (by cases hq)) _ (by omega) (by omega)]
    exact hz _
  refine ⟨hr.size ▸ hm, hr.first, hr.second, fun slot hs => ?_⟩
  have hfooter : env.footerOffset < env.partitionSize := by
    unfold Env.footerOffset
    simp only [partitionHeaderRegionSize, partitionFooterRegionSize] at hroom ⊢
    omega
  have hheader : partitionHeaderRegionSize < env.partitionSize := by
    have := g.quantum_pos
    omega
  have h0 := hbyte hs (o := 0) (by omega)
  exact ⟨h0, slotEvidence_foreign h0 (hbyte hs hfooter) (hbyte hs hheader)⟩

/-- Nothing on it can be taken for something that was not written. -/
theorem formatted_plain {env : Env} (g : Geometry env) {prior : Image}
    (hz : ∀ x, prior.byte x ≠ magicByte) :
    Plain env ((formatProgram env.volume).exec (Item.bytes env) { durable := prior }).2.issued
      (((formatProgram env.volume).exec (Item.bytes env) { durable := prior }).2.volatile
        (Item.bytes env)) := by
  have hseen : ((formatProgram env.volume).exec (Item.bytes env) { durable := prior }).2.volatile
      (Item.bytes env) = (prior.write 0 (Item.bytes env (.volume env.volume))).write
        volumeHeaderCopySize (Item.bytes env (.volume env.volume)) := by
    show ((({ durable := prior } : Disk Item).issue 0 (.volume env.volume) _).issue
      volumeHeaderCopySize (.volume env.volume) _).volatile (Item.bytes env) = _
    rw [Disk.issue_volatile, Disk.issue_volatile, List.take_length]
    rfl
  rw [hseen]
  exact ((Plain.blank hz).issueVolume g (Or.inl rfl)).issueVolume g (Or.inr rfl)

theorem formatted_collisionFree {env : Env} (g : Geometry env) {prior : Image}
    (hz : ∀ x, prior.byte x ≠ magicByte) : CollisionFreeNow env
      ((formatProgram env.volume).exec (Item.bytes env) { durable := prior }).2 :=
  .of_plain g (formatted_plain g hz)

namespace Wide

/-- The largest payload a volume header can name. -/
def options : VolumeOptions where
  partitionSize := 4294975744
  indexRegionSize := 128
  maxBlockPayload := 0xffffffff
  persistenceQuantum := 128

def volume : VolumeHeader where
  volumeIdHigh := 1
  volumeIdLow := 2
  volumeSize := 8589959680
  partitionSize := 4294975744
  partitionCount := 2
  indexRegionSize := 128
  maxBlockPayload := 0xffffffff
  persistenceQuantum := 128

def env : Env := { volume := volume }

def image : Image := ⟨8589959680, fun _ => 0⟩

theorem formats : formatHeader image.size options (.ok (1, 2)) = .ok env.volume := by decide

theorem geometry : Geometry env := (formatHeader_geometry (by decide) (by decide) formats).1

def formatted : Disk Item := ((formatProgram env.volume).exec (Item.bytes env) { durable := image }).2

def openOptions : OpenOptions := { writable := true }

/-! The stores differ from those of the sample run in the volume and the partitions. -/

def recovered : Store := { Sample.recovered with env := env }

theorem recovered_eq : recoveredStore env openOptions (3, 4) {} = recovered := by
  unfold recoveredStore sortPartitions
  simp only [List.mergeSort_nil]
  rfl

theorem recovers : Rd.run (imageSource (formatted.volatile (Item.bytes env)))
    (recover (formatted.volatile (Item.bytes env)).size openOptions (.ok (3, 4))) = .ok recovered := by
  rw [← recovered_eq]
  exact ((@RingInv.formatted env image).blank geometry (Nat.le_refl _) rfl fun _ =>
    Sample.blank_byte).recover geometry rfl rfl rfl

def write (d : Disk Item) (off : Nat) (i : Item) : Disk Item := d.issue off i (Item.bytes env i).length

def header (slot : UInt32) (generation : UInt64) : PartitionHeader :=
  Writer.newHeader env slot generation {}

def opened : Store := { Sample.opened with env := env, partitions := [{ header := header 0 1 }] }

def created : Disk Item := (write formatted 8192 (.header (header 0 1))).flush (Item.bytes env)

theorem exec_open : (startWriter recovered).exec (Item.bytes env) formatted =
    ((.ok (), opened), created) := by
  have h : (startWriter recovered).exec (Item.bytes env) formatted =
    ((.ok (), { opened with partitions := sortPartitions [{ header := header 0 1 }] }),
      created) := rfl
  rw [h, Sample.sort_single]
  rfl

def appended : Store := { Sample.appended with env := env, partitions := opened.partitions }

theorem exec_append : ((Op.append Sample.record 0 0).program opened).exec (Item.bytes env) created =
    ((.ok (), appended), created) := rfl

def full : PartitionState :=
  Writer.addBlock { header := header 0 1 } (Sample.block 0 (0, 0) (3, 4)) 129 256

def published : Store := { Sample.published with env := env, partitions := [full] }

def framed : Disk Item :=
  write created 12288 (.frame (Sample.block 0 (0, 0) (3, 4)) Sample.record Sample.record)

theorem exec_publish : (Op.publish.program appended).exec (Item.bytes env) created =
    ((.ok (), published), framed) := rfl

def synced : Store := Writer.synced true published

theorem exec_checkpoint : (Op.checkpoint.program published).exec (Item.bytes env) framed =
    ((.ok (), synced), framed.flush (Item.bytes env)) := rfl

def sealedPartition : PartitionState :=
  { full with isSealed := true, indexValid := true, footer := Writer.sealFooter env full }

def rotated : Disk Item :=
  (write ((write (write (framed.flush (Item.bytes env)) 4294979712 (.index full.activeIndex))
    4294979840 (.footer (Writer.sealFooter env full) full.activeIndex)).flush
      (Item.bytes env)) 4294983936 (.header (header 1 2))).flush (Item.bytes env)

def final : Store := { Sample.final with
  env := env
  partitions := [sealedPartition, { header := header 1 2 }] }

theorem exec_rotate : ((Op.rotate {}).program synced).exec (Item.bytes env)
    (framed.flush (Item.bytes env)) = ((.ok (), final), rotated) := by
  have h : ((Op.rotate {}).program synced).exec (Item.bytes env) (framed.flush (Item.bytes env)) =
    ((.ok (), { final with partitions := sortPartitions final.partitions }), rotated) := rfl
  have hs : sortPartitions final.partitions = final.partitions :=
    List.mergeSort_of_pairwise (by decide)
  rw [h, hs]

theorem clean_rotated : Clean env image (CollisionFreeNow env) rotated (some final) := by
  have hopen : Clean env image (CollisionFreeNow env) created (some opened) :=
    Clean.opened (o := openOptions) (s := recovered)
      (Clean.formatted (o := options) formats (by decide) (by decide))
      (formatted_collisionFree geometry fun _ => Sample.blank_byte) rfl rfl
      (fun h => absurd (Except.ok.inj h) (by decide)) recovers exec_open
  exact (((hopen.called _ exec_append).called _ exec_publish).called _ exec_checkpoint).called _
    exec_rotate

end Wide

/-- With the largest payload a run of one record leaves a sealed partition whose index is not
accepted. -/
theorem wide_geometry_unusable :
    Clean Wide.env Wide.image (CollisionFreeNow Wide.env) Wide.rotated (some Wide.final) ∧
      Wide.env.Lawful ∧ Wide.final.faulted = false ∧ Up Wide.final ∧
      Wide.sealedPartition ∈ Wide.final.partitions ∧ Wide.sealedPartition.isSealed = true ∧
      ∀ entries, Rd.run (imageSource (Wide.rotated.volatile (Item.bytes Wide.env)))
        (loadIndex Wide.env Wide.sealedPartition) ≠ .ok entries := by
  refine ⟨Wide.clean_rotated, fun _ hc => (by cases hc), rfl, ⟨rfl, rfl⟩, List.mem_cons_self .., rfl, ?_⟩
  intro entries hload
  exact loadIndex_wrapped (by decide) _ rfl (by decide) (by decide) hload

end TFDB
