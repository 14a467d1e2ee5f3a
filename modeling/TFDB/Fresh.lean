import TFDB.Catalog

/-!
# Fresh media and undisturbed programs

Bytes that do not start with the first byte of a magic are no structure to any decoder
(`Foreign`), so storage without such bytes is an empty volume to `open`:

* `CollisionFree.of_plain` — an image is collision free when each position of the format is
  foreign or holds a structure that was written there;
* `Blank.recover` — a volume all of whose slots are foreign opens with an empty catalog;
* `Reach.format`, `Reach.open`, `Reach.call` — a program none of whose storage operations
  fails is a run of the system.

`Sample` is a small volume with a run on it that seals its first partition.
-/

set_option autoImplicit false

namespace TFDB

open ByteLib

/-! ## Foreign bytes -/

/-- The first byte of every magic. -/
def magicByte : UInt8 := 0x54

/-- The bytes start with no magic. -/
def Foreign (bytes : Bytes) : Prop := bytes.head? ≠ some magicByte

theorem Foreign.commonCheck {bytes : Bytes} (h : Foreign bytes) (magic : Bytes)
    (hm : magic.head? = some magicByte) (size crcOffset : Nat) :
    ∃ text, commonCheck bytes magic size crcOffset = failWith .corrupt text := by
  have hmagic : magicIs bytes magic = false := by
    by_contra hne
    simp only [Bool.not_eq_false, magicIs, Bool.and_eq_true, beq_iff_eq] at hne
    refine h ?_
    rw [← hm, ← hne.2]
    cases bytes with
    | nil => rfl
    | cons b bs => rfl
  unfold TFDB.commonCheck
  split
  · exact ⟨_, rfl⟩
  · rw [if_pos (by simp [hmagic])]
    exact ⟨_, rfl⟩

theorem Foreign.decodeVolumeHeader {bytes : Bytes} (h : Foreign bytes) :
    ∃ text, decodeVolumeHeader bytes = failWith .corrupt text := by
  obtain ⟨text, ht⟩ := h.commonCheck volumeMagic rfl volumeHeaderEncodedSize 72
  exact ⟨text, by unfold TFDB.decodeVolumeHeader; rw [ht]; rfl⟩

theorem Foreign.decodePartitionHeader {bytes : Bytes} (h : Foreign bytes) :
    ∃ text, decodePartitionHeader bytes = failWith .corrupt text := by
  obtain ⟨text, ht⟩ := h.commonCheck partitionMagic rfl partitionHeaderEncodedSize 104
  exact ⟨text, by unfold TFDB.decodePartitionHeader; rw [ht]; rfl⟩

theorem Foreign.decodePartitionFooter {bytes : Bytes} (h : Foreign bytes) :
    ∃ text, decodePartitionFooter bytes = failWith .corrupt text := by
  obtain ⟨text, ht⟩ := h.commonCheck footerMagic rfl partitionFooterEncodedSize 100
  exact ⟨text, by unfold TFDB.decodePartitionFooter; rw [ht]; rfl⟩

theorem Foreign.decodeBlockHeader {bytes : Bytes} (h : Foreign bytes) :
    ∃ text, decodeBlockHeader bytes = failWith .corrupt text := by
  obtain ⟨text, ht⟩ := h.commonCheck blockMagic rfl blockHeaderEncodedSize 72
  exact ⟨text, by unfold TFDB.decodeBlockHeader; rw [ht]; rfl⟩

theorem Foreign.not_header {bytes : Bytes} (h : Foreign bytes) :
    ¬ Checks bytes partitionMagic partitionHeaderEncodedSize 104 := by
  obtain ⟨text, ht⟩ := h.commonCheck partitionMagic rfl partitionHeaderEncodedSize 104
  rw [Checks, ht]
  exact fun hc => by cases hc

theorem Foreign.not_footer {bytes : Bytes} (h : Foreign bytes) :
    ¬ Checks bytes footerMagic partitionFooterEncodedSize 100 := by
  obtain ⟨text, ht⟩ := h.commonCheck footerMagic rfl partitionFooterEncodedSize 100
  rw [Checks, ht]
  exact fun hc => by cases hc

theorem foreign_window {m : Image} {off n : Nat} (h : m.byte off ≠ magicByte) :
    Foreign (m.window off n) := by
  unfold Foreign
  cases n with
  | zero => simp [Image.window]
  | succ n =>
    rw [Nat.add_comm, Image.window_add]
    simpa [Image.window] using h

section
variable {env : Env} {m : Image} {slot : UInt32}

theorem slotHeader_foreign (h : m.byte (env.partitionBase slot) ≠ magicByte) :
    ∃ e, slotHeader env m slot = .error e ∧ e.code = .corrupt := by
  obtain ⟨text, ht⟩ := (foreign_window (n := partitionHeaderEncodedSize) h).decodePartitionHeader
  refine ⟨⟨.corrupt, text⟩, ?_, rfl⟩
  unfold slotHeader acceptPartitionHeader
  rw [ht]
  rfl

theorem slotFooter_foreign {h : PartitionHeader}
    (hb : m.byte (env.partitionBase h.slot + env.footerOffset) ≠ magicByte) :
    ∃ e, slotFooter env m h = .error e ∧ e.code = .corrupt := by
  obtain ⟨text, ht⟩ := (foreign_window (n := partitionFooterEncodedSize) hb).decodePartitionFooter
  refine ⟨⟨.corrupt, text⟩, ?_, rfl⟩
  unfold slotFooter acceptFooter
  rw [ht]
  rfl

theorem slotEvidence_foreign (h1 : m.byte (env.partitionBase slot) ≠ magicByte)
    (h2 : m.byte (env.partitionBase slot + env.footerOffset) ≠ magicByte)
    (h3 : m.byte (env.partitionBase slot + partitionHeaderRegionSize) ≠ magicByte) :
    slotEvidence env m slot = false := by
  obtain ⟨text2, ht2⟩ := (foreign_window (n := partitionFooterEncodedSize) h2).decodePartitionFooter
  obtain ⟨text3, ht3⟩ := (foreign_window (n := blockHeaderEncodedSize) h3).decodeBlockHeader
  have hh : headerEvidence env (m.window (env.partitionBase slot) partitionHeaderEncodedSize) = false := by
    have hne : slice (m.window (env.partitionBase slot) partitionHeaderEncodedSize) 0 8 ≠
        partitionMagic := by
      intro heq
      rw [Image.slice_window _ (by decide)] at heq
      exact foreign_window (n := 8) h1 ((congrArg List.head? heq).trans rfl)
    simp [headerEvidence, hne]
  unfold slotEvidence
  simp only [footerEvidence, blockEvidence, hh, ht2, ht3, failWith, Bool.or_false, Bool.and_false]

end

/-! ## Collision-free images -/

/-- Every position of the format holds no structure or one that was written there. -/
structure Plain (env : Env) (issued : List (Nat × Item)) (m : Image) : Prop where
  volume : ∀ off, off = 0 ∨ off = volumeHeaderCopySize →
    (∀ v, decodeVolumeHeader (m.window off volumeHeaderEncodedSize) ≠ .ok v) ∨
    ((off, Item.volume env.volume) ∈ issued ∧
      m.window off volumeHeaderEncodedSize = encodeVolumeHeader env.volume)
  header : ∀ slot : UInt32, slot < env.volume.partitionCount →
    ¬ Checks (m.window (env.partitionBase slot) partitionHeaderEncodedSize) partitionMagic
      partitionHeaderEncodedSize 104 ∨
    ∃ h, (env.partitionBase slot, Item.header h) ∈ issued ∧
      m.window (env.partitionBase slot) partitionHeaderEncodedSize = Item.bytes env (.header h)
  footer : ∀ slot : UInt32, slot < env.volume.partitionCount →
    ¬ Checks (m.window (env.partitionBase slot + env.footerOffset) partitionFooterEncodedSize)
      footerMagic partitionFooterEncodedSize 100 ∨
    ∃ f es, (env.partitionBase slot + env.footerOffset, Item.footer f es) ∈ issued ∧
      m.window (env.partitionBase slot + env.footerOffset) partitionFooterEncodedSize =
        Item.bytes env (.footer f es)
  frame : ∀ slot : UInt32, slot < env.volume.partitionCount → ∀ o,
    partitionHeaderRegionSize ≤ o → o + blockHeaderEncodedSize ≤ env.indexBegin →
    o % env.quantum = 0 →
    (∀ b, decodeBlockHeader (m.window (env.partitionBase slot + o) blockHeaderEncodedSize) ≠ .ok b) ∨
    ∃ b payload raw, (env.partitionBase slot + o, Item.frame b payload raw) ∈ issued ∧
      b.inBounds = true ∧ b.storedSize.toNat = payload.length ∧
      o + (blockHeaderEncodedSize + payload.length) ≤ env.indexBegin ∧
      m.window (env.partitionBase slot + o) (blockHeaderEncodedSize + payload.length) =
        encodeBlockHeader b ++ payload
  index : ∀ slot : UInt32, slot < env.volume.partitionCount → ∀ f es,
    (env.partitionBase slot + env.footerOffset, Item.footer f es) ∈ issued →
    f.indexSize.toNat ≤ env.indexRegionSize ∧
    m.window (env.partitionBase slot + env.indexBegin) f.indexSize.toNat = encodeIndex es

/-- The volume header of a valid geometry reads back. -/
theorem Geometry.decodeVolume {env : Env} (g : Geometry env) :
    decodeVolumeHeader (encodeVolumeHeader env.volume) = .ok env.volume := by
  have hcount := g.count
  have hsize := g.partitionSize_pos
  have hpay := g.payload_pos
  have hq := g.quantum_pos
  refine decodeVolumeHeader_encode (fun h => ?_) (fun h => ?_) (fun h => ?_) (fun h => ?_)
  · have : env.volume.partitionCount.toNat < 2 := h
    simp only [Env.partitionCount] at hcount
    omega
  · simp [Env.partitionSize, h] at hsize
  · simp [Env.maxBlockPayload, h] at hpay
  · simp [Env.quantum, h] at hq

/-- A structure a window of an image starts with, split from its payload. -/
theorem window_frame {m : Image} {off : Nat} {b : BlockHeader} {payload : Bytes}
    (h : m.window off (blockHeaderEncodedSize + payload.length) = encodeBlockHeader b ++ payload) :
    m.window off blockHeaderEncodedSize = encodeBlockHeader b ∧
      m.window (off + blockHeaderEncodedSize) payload.length = payload := by
  rw [Image.window_add] at h
  exact List.append_inj h (by rw [Image.window_length, encodeBlockHeader_length]; rfl)

theorem CollisionFree.of_plain {env : Env} (g : Geometry env) {issued : List (Nat × Item)}
    {m : Image} (h : Plain env issued m) : CollisionFree env issued m where
  volume := by
    intro off hoff v hv
    rcases h.volume off hoff with hb | ⟨hi, hw⟩
    · exact absurd hv (hb v)
    · rw [hw, g.decodeVolume] at hv
      cases hv
      exact hi
  header := fun slot hs hc _ _ => (h.header slot hs).resolve_left (not_not_intro hc)
  footer := fun slot hs hc _ _ => (h.footer slot hs).resolve_left (not_not_intro hc)
  frame := by
    intro slot hs o h1 h2 h3 b hd _ _ payload hcrc
    rcases h.frame slot hs o h1 h2 h3 with hb | ⟨b', payload', raw, hi, hin, hst, -, hw⟩
    · exact absurd hd (hb b)
    · obtain ⟨hw1, hw2⟩ := window_frame hw
      rw [hw1, decodeBlockHeader_encode hin] at hd
      cases hd
      refine ⟨raw, ?_⟩
      have hp : payload = payload' := by rw [← hw2, ← hst]
      rw [hp]
      exact hi
  index := fun slot hs f es hf _ => (h.index slot hs f es hf).2

/-- Storage that shows no structure where the format keeps one. -/
theorem Plain.unwritten {env : Env} {m : Image}
    (hv : ∀ off, off = 0 ∨ off = volumeHeaderCopySize → m.byte off ≠ magicByte)
    (hh : ∀ slot : UInt32, slot < env.volume.partitionCount →
      m.byte (env.partitionBase slot) ≠ magicByte)
    (hf : ∀ slot : UInt32, slot < env.volume.partitionCount →
      ¬ Checks (m.window (env.partitionBase slot + env.footerOffset) partitionFooterEncodedSize)
        footerMagic partitionFooterEncodedSize 100)
    (hb : ∀ slot : UInt32, slot < env.volume.partitionCount → ∀ o, partitionHeaderRegionSize ≤ o →
      o + blockHeaderEncodedSize ≤ env.indexBegin → m.byte (env.partitionBase slot + o) ≠ magicByte) :
    Plain env [] m where
  volume := by
    intro off hoff
    obtain ⟨text, ht⟩ := (foreign_window (n := volumeHeaderEncodedSize) (hv off hoff)).decodeVolumeHeader
    left
    rw [ht]
    exact fun v hv => by cases hv
  header := fun slot hs => Or.inl (foreign_window (hh slot hs)).not_header
  footer := fun slot hs => Or.inl (hf slot hs)
  frame := by
    intro slot hs o h1 h2 _
    obtain ⟨text, ht⟩ :=
      (foreign_window (n := blockHeaderEncodedSize) (hb slot hs o h1 h2)).decodeBlockHeader
    left
    rw [ht]
    exact fun v hv => by cases hv
  index := fun slot _ f es hf => by cases hf

/-- Storage without the first byte of a magic holds no structure. -/
theorem Plain.blank {env : Env} {m : Image} (h : ∀ x, m.byte x ≠ magicByte) : Plain env [] m :=
  .unwritten (fun _ _ => h _) (fun _ _ => h _) (fun _ _ => (foreign_window (h _)).not_footer)
    fun _ _ _ _ _ => h _

/-- Two windows have no byte in common. -/
def Apart (off n o k : Nat) : Prop := o + k ≤ off ∨ off + n ≤ o

section
variable {env : Env} {issued issued' : List (Nat × Item)} {m : Image} {off : Nat} {bs : Bytes}

/-- A write keeps what it does not touch; the rest has to be supplied. -/
theorem Plain.write (hp : Plain env issued m) (hi : issued ⊆ issued')
    (hv : ∀ o, o = 0 ∨ o = volumeHeaderCopySize → Apart off bs.length o volumeHeaderEncodedSize ∨
      (o, Item.volume env.volume) ∈ issued' ∧
        (m.write off bs).window o volumeHeaderEncodedSize = encodeVolumeHeader env.volume)
    (hh : ∀ slot : UInt32, slot < env.volume.partitionCount →
      Apart off bs.length (env.partitionBase slot) partitionHeaderEncodedSize ∨
      ¬ Checks ((m.write off bs).window (env.partitionBase slot) partitionHeaderEncodedSize)
        partitionMagic partitionHeaderEncodedSize 104 ∨
      ∃ h, (env.partitionBase slot, Item.header h) ∈ issued' ∧
        (m.write off bs).window (env.partitionBase slot) partitionHeaderEncodedSize =
          Item.bytes env (.header h))
    (hf : ∀ slot : UInt32, slot < env.volume.partitionCount →
      Apart off bs.length (env.partitionBase slot + env.footerOffset) partitionFooterEncodedSize ∨
      ¬ Checks ((m.write off bs).window (env.partitionBase slot + env.footerOffset)
        partitionFooterEncodedSize) footerMagic partitionFooterEncodedSize 100 ∨
      ∃ f es, (env.partitionBase slot + env.footerOffset, Item.footer f es) ∈ issued' ∧
        (m.write off bs).window (env.partitionBase slot + env.footerOffset)
          partitionFooterEncodedSize = Item.bytes env (.footer f es))
    (hb : ∀ slot : UInt32, slot < env.volume.partitionCount → ∀ o,
      partitionHeaderRegionSize ≤ o → o + blockHeaderEncodedSize ≤ env.indexBegin →
      o % env.quantum = 0 →
      (Apart off bs.length (env.partitionBase slot + o) blockHeaderEncodedSize ∧
        ∀ b payload raw, (env.partitionBase slot + o, Item.frame b payload raw) ∈ issued →
          o + (blockHeaderEncodedSize + payload.length) ≤ env.indexBegin →
          Apart off bs.length (env.partitionBase slot + o) (blockHeaderEncodedSize + payload.length)) ∨
      (m.write off bs).byte (env.partitionBase slot + o) ≠ magicByte ∨
      ∃ b payload raw, (env.partitionBase slot + o, Item.frame b payload raw) ∈ issued' ∧
        b.inBounds = true ∧ b.storedSize.toNat = payload.length ∧
        o + (blockHeaderEncodedSize + payload.length) ≤ env.indexBegin ∧
        (m.write off bs).window (env.partitionBase slot + o)
          (blockHeaderEncodedSize + payload.length) = encodeBlockHeader b ++ payload)
    (hx : ∀ slot : UInt32, slot < env.volume.partitionCount → ∀ f es,
      (env.partitionBase slot + env.footerOffset, Item.footer f es) ∈ issued' →
      ((env.partitionBase slot + env.footerOffset, Item.footer f es) ∈ issued ∧
        (f.indexSize.toNat ≤ env.indexRegionSize →
          Apart off bs.length (env.partitionBase slot + env.indexBegin) f.indexSize.toNat)) ∨
      (f.indexSize.toNat ≤ env.indexRegionSize ∧
        (m.write off bs).window (env.partitionBase slot + env.indexBegin) f.indexSize.toNat =
          encodeIndex es)) :
    Plain env issued' (m.write off bs) where
  volume := by
    intro o ho
    rcases hv o ho with ha | hnew
    · rw [Image.window_write_out ha]
      exact (hp.volume o ho).imp_right fun h => ⟨hi h.1, h.2⟩
    · exact Or.inr hnew
  header := by
    intro slot hs
    rcases hh slot hs with ha | hnew
    · rw [Image.window_write_out ha]
      exact (hp.header slot hs).imp_right fun ⟨h, h1, h2⟩ => ⟨h, hi h1, h2⟩
    · exact hnew
  footer := by
    intro slot hs
    rcases hf slot hs with ha | hnew
    · rw [Image.window_write_out ha]
      exact (hp.footer slot hs).imp_right fun ⟨f, es, h1, h2⟩ => ⟨f, es, hi h1, h2⟩
    · exact hnew
  frame := by
    intro slot hs o h1 h2 h3
    rcases hb slot hs o h1 h2 h3 with ⟨ha, hb⟩ | hbyte | hnew
    · rcases hp.frame slot hs o h1 h2 h3 with hno | ⟨b, payload, raw, h4, h5, h6, h7, h8⟩
      · left
        rw [Image.window_write_out ha]
        exact hno
      · right
        refine ⟨b, payload, raw, hi h4, h5, h6, h7, ?_⟩
        rw [Image.window_write_out (hb b payload raw h4 h7)]
        exact h8
    · left
      obtain ⟨text, ht⟩ := (foreign_window (n := blockHeaderEncodedSize) hbyte).decodeBlockHeader
      rw [ht]
      exact fun b hb => by cases hb
    · exact Or.inr hnew
  index := by
    intro slot hs f es hfe
    rcases hx slot hs f es hfe with ⟨hold, ha⟩ | hnew
    · obtain ⟨h1, h2⟩ := hp.index slot hs f es hold
      rw [Image.window_write_out (ha h1)]
      exact ⟨h1, h2⟩
    · exact hnew

end

section
variable {env : Env} (g : Geometry env) {issued : List (Nat × Item)} {m : Image}

/-- Windows of different slots, or of different parts of one slot, are apart. -/
theorem apart_slots {s t : UInt32} {a b n k : Nat} (ha : a + n ≤ env.partitionSize)
    (hb : b + k ≤ env.partitionSize) (h : s = t → Apart a n b k) :
    Apart (env.partitionBase s + a) n (env.partitionBase t + b) k := by
  unfold Apart at *
  by_cases hst : s = t
  · subst hst
    have := h rfl
    omega
  · rcases Geometry.slots_disjoint env hst with hd | hd
    · omega
    · omega

theorem apart_front {t : UInt32} {o n b k : Nat} (ho : o + n ≤ volumePrefixSize) :
    Apart o n (env.partitionBase t + b) k ∧ Apart (env.partitionBase t + b) k o n := by
  have : volumePrefixSize ≤ env.partitionBase t := Nat.le_add_right ..
  unfold Apart
  omega

include g

theorem Plain.issueVolume (hp : Plain env issued m) {off : Nat}
    (hoff : off = 0 ∨ off = volumeHeaderCopySize) :
    Plain env (issued ++ [(off, .volume env.volume)])
      (m.write off (Item.bytes env (.volume env.volume))) := by
  obtain ⟨e1, e2, e3, e4, e5, e6, e7, e8, e9, e10⟩ := slot_parts g
  have hlen := Item.bytes_volume_length env env.volume
  refine hp.write (List.subset_append_left ..) ?_ (fun slot _ => Or.inl ?_) (fun slot _ => Or.inl ?_)
    (fun slot _ o _ _ _ => Or.inl ⟨?_, fun b payload raw _ _ => ?_⟩)
    (fun slot _ f es hf => Or.inl ⟨?_, fun _ => ?_⟩)
  · intro o ho
    by_cases h : o = off
    · right
      subst h
      refine ⟨List.mem_append_right _ (List.mem_singleton_self _), ?_⟩
      exact Image.window_write_same _ (by rw [hlen]; rfl)
    · left
      unfold Apart
      omega
  · exact (apart_front (t := slot) (b := 0) (by omega)).1
  · exact (apart_front (by omega)).1
  · exact (apart_front (by omega)).1
  · exact (apart_front (by omega)).1
  · simpa using hf
  · exact (apart_front (by omega)).1

/-- A header write; what it leaves at its place is the header or no structure. -/
theorem Plain.issueHeader (hp : Plain env issued m) (h : PartitionHeader) {bs : Bytes}
    (hlen : bs.length ≤ partitionHeaderEncodedSize)
    (hself : ¬ Checks ((m.write (env.partitionBase h.slot) bs).window (env.partitionBase h.slot)
        partitionHeaderEncodedSize) partitionMagic partitionHeaderEncodedSize 104 ∨
      (m.write (env.partitionBase h.slot) bs).window (env.partitionBase h.slot)
        partitionHeaderEncodedSize = Item.bytes env (.header h)) :
    Plain env (issued ++ [(env.partitionBase h.slot, .header h)])
      (m.write (env.partitionBase h.slot) bs) := by
  obtain ⟨e1, e2, e3, e4, e5, e6, e7, e8, e9, e10⟩ := slot_parts g
  refine hp.write (List.subset_append_left ..) (fun o ho => Or.inl ?_) ?_ (fun slot _ => Or.inl ?_)
    (fun slot _ o _ _ _ => Or.inl ⟨?_, fun b payload raw _ _ => ?_⟩)
    (fun slot _ f es hf => Or.inl ⟨?_, fun _ => ?_⟩)
  · exact (apart_front (t := h.slot) (b := 0) (by omega)).2
  · intro slot _
    by_cases hs : h.slot = slot
    · subst hs
      right
      exact hself.imp_right fun hw => ⟨h, List.mem_append_right _ (List.mem_singleton_self _), hw⟩
    · left
      exact apart_slots (s := h.slot) (t := slot) (a := 0) (b := 0) (by omega) (by omega)
        fun hst => absurd hst hs
  · exact apart_slots (s := h.slot) (a := 0) (by omega) (by omega) fun _ => by unfold Apart; omega
  · exact apart_slots (s := h.slot) (a := 0) (by omega) (by omega) fun _ => by unfold Apart; omega
  · exact apart_slots (s := h.slot) (a := 0) (by omega) (by omega) fun _ => by unfold Apart; omega
  · simpa using hf
  · exact apart_slots (s := h.slot) (a := 0) (by omega) (by omega) fun _ => by unfold Apart; omega

/-- A frame write at the end of the data of a slot.  Its bytes have no magic inside, and the
frames before it end in front of it. -/
theorem Plain.issueFrame (hp : Plain env issued m) {slot : UInt32} {o : Nat} {b : BlockHeader}
    {payload : Bytes} (raw : Bytes) (h1 : partitionHeaderRegionSize ≤ o)
    (h2 : o + (blockHeaderEncodedSize + payload.length) ≤ env.indexBegin)
    (hb : b.inBounds = true) (hst : b.storedSize.toNat = payload.length)
    (hquiet : ∀ j, 0 < j → j < blockHeaderEncodedSize + payload.length →
      (o + j) % env.quantum = 0 → (encodeBlockHeader b ++ payload).getD j 0 ≠ magicByte)
    (hbefore : ∀ o' b' payload' raw', (env.partitionBase slot + o', Item.frame b' payload' raw') ∈ issued →
      o' < o → o' + (blockHeaderEncodedSize + payload'.length) ≤ o)
    (hclear : ∀ j, 0 < j → j < blockHeaderEncodedSize → (o - j) % env.quantum = 0 → j ≤ o →
      m.byte (env.partitionBase slot + (o - j)) ≠ magicByte) :
    Plain env (issued ++ [(env.partitionBase slot + o, .frame b payload raw)])
      (m.write (env.partitionBase slot + o) (Item.bytes env (.frame b payload raw))) := by
  obtain ⟨e1, e2, e3, e4, e5, e6, e7, e8, e9, e10⟩ := slot_parts g
  have hlen := Item.bytes_frame_length env b payload raw
  refine hp.write (List.subset_append_left ..) (fun p hp => Or.inl ?_) (fun t _ => Or.inl ?_)
    (fun t _ => Or.inl ?_) ?_ (fun t _ f es hf => Or.inl ⟨?_, fun _ => ?_⟩)
  · exact (apart_front (by omega)).2
  · exact apart_slots (t := t) (b := 0) (by omega) (by omega) fun _ => by unfold Apart; omega
  · exact apart_slots (by omega) (by omega) fun _ => by unfold Apart; omega
  · intro t _ p hp1 hp2 hp3
    by_cases ht : slot = t
    · subst ht
      rcases Nat.lt_trichotomy p o with hlt | rfl | hgt
      · by_cases hin : p + blockHeaderEncodedSize ≤ o
        · left
          refine ⟨apart_slots (by omega) (by omega) fun _ => by unfold Apart; omega, ?_⟩
          intro b' payload' raw' hi' _
          have := hbefore p b' payload' raw' hi' hlt
          exact apart_slots (by omega) (by omega) fun _ => by unfold Apart; omega
        · right
          left
          rw [Image.write_byte_out (by omega)]
          have := hclear (o - p) (by omega) (by omega) (by rwa [show o - (o - p) = p by omega]) (by omega)
          rwa [show o - (o - p) = p by omega] at this
      · right
        right
        refine ⟨b, payload, raw, List.mem_append_right _ (List.mem_singleton_self _), hb, hst, h2, ?_⟩
        exact Image.window_write_same _ (by rw [hlen]; rfl)
      · by_cases hin : p < o + (blockHeaderEncodedSize + payload.length)
        · right
          left
          rw [Image.write_byte_in (by omega) (by omega)]
          have := hquiet (p - o) (by omega) (by omega) (by rwa [show o + (p - o) = p by omega])
          rwa [show env.partitionBase slot + p - (env.partitionBase slot + o) = p - o by omega]
        · left
          refine ⟨apart_slots (by omega) (by omega) fun _ => by unfold Apart; omega, ?_⟩
          intro b' payload' raw' hi' _
          exact apart_slots (by omega) (by omega) fun _ => by unfold Apart; omega
    · left
      refine ⟨apart_slots (by omega) (by omega) fun hst => absurd hst ht, ?_⟩
      intro b' payload' raw' hi' _
      exact apart_slots (by omega) (by omega) fun hst => absurd hst ht
  · simpa using hf
  · exact apart_slots (by omega) (by omega) fun _ => by unfold Apart; omega

/-- An index write; footers of the slot written before list a beginning of it. -/
theorem Plain.issueIndex (hp : Plain env issued m) {slot : UInt32} {es : List IndexEntry}
    (hfit : (encodeIndex es).length ≤ env.indexRegionSize)
    (hold : ∀ f es', (env.partitionBase slot + env.footerOffset, Item.footer f es') ∈ issued →
      es' <+: es ∧ f.indexSize.toNat = es'.length * 48) :
    Plain env (issued ++ [(env.partitionBase slot + env.indexBegin, .index es)])
      (m.write (env.partitionBase slot + env.indexBegin) (Item.bytes env (.index es))) := by
  obtain ⟨e1, e2, e3, e4, e5, e6, e7, e8, e9, e10⟩ := slot_parts g
  have hlen : (Item.bytes env (.index es)).length ≤ env.indexRegionSize := hfit
  refine hp.write (List.subset_append_left ..) (fun p hp => Or.inl ?_) (fun t _ => Or.inl ?_)
    (fun t _ => Or.inl ?_) (fun t _ o _ _ _ => Or.inl ⟨?_, fun b payload raw _ _ => ?_⟩) ?_
  · exact (apart_front (by omega)).2
  · exact apart_slots (t := t) (b := 0) (by omega) (by omega) fun _ => by unfold Apart; omega
  · exact apart_slots (by omega) (by omega) fun _ => by unfold Apart; omega
  · exact apart_slots (by omega) (by omega) fun _ => by unfold Apart; omega
  · exact apart_slots (by omega) (by omega) fun _ => by unfold Apart; omega
  · intro t ht f es' hf
    have hf' : (env.partitionBase t + env.footerOffset, Item.footer f es') ∈ issued := by
      simpa using hf
    by_cases hst : slot = t
    · subst hst
      right
      obtain ⟨⟨rest, rfl⟩, hsz⟩ := hold f es' hf'
      refine ⟨(hp.index slot ht f es' hf').1, ?_⟩
      have hsplit : Item.bytes env (.index (es' ++ rest)) = encodeIndex es' ++ encodeIndex rest := by
        simp [Item.bytes, encodeIndex]
      have hw : (m.write (env.partitionBase slot + env.indexBegin)
          (Item.bytes env (.index (es' ++ rest)))).window (env.partitionBase slot + env.indexBegin)
          (Item.bytes env (.index (es' ++ rest))).length = Item.bytes env (.index (es' ++ rest)) :=
        Image.window_write_same m rfl
      rw [hsplit, List.length_append, Image.window_add] at hw
      rw [hsz, ← encodeIndex_length es', hsplit]
      exact (List.append_inj hw (by simp)).1
    · left
      exact ⟨hf', fun _ => apart_slots (by omega) (by omega) fun h => absurd h hst⟩

/-- A footer write whose index is in place; what it leaves is a footer that was written there or no
structure. -/
theorem Plain.issueFooter (hp : Plain env issued m) {slot : UInt32} (f : PartitionFooter)
    (es : List IndexEntry) {bs : Bytes} (hlen : bs.length ≤ partitionFooterEncodedSize)
    (hsize : f.indexSize.toNat ≤ env.indexRegionSize)
    (hindex : m.window (env.partitionBase slot + env.indexBegin) f.indexSize.toNat = encodeIndex es)
    (hself : ¬ Checks ((m.write (env.partitionBase slot + env.footerOffset) bs).window
        (env.partitionBase slot + env.footerOffset) partitionFooterEncodedSize) footerMagic
        partitionFooterEncodedSize 100 ∨
      ∃ f' es', (env.partitionBase slot + env.footerOffset, Item.footer f' es') ∈
          issued ++ [(env.partitionBase slot + env.footerOffset, .footer f es)] ∧
        (m.write (env.partitionBase slot + env.footerOffset) bs).window
          (env.partitionBase slot + env.footerOffset) partitionFooterEncodedSize =
            Item.bytes env (.footer f' es')) :
    Plain env (issued ++ [(env.partitionBase slot + env.footerOffset, .footer f es)])
      (m.write (env.partitionBase slot + env.footerOffset) bs) := by
  obtain ⟨e1, e2, e3, e4, e5, e6, e7, e8, e9, e10⟩ := slot_parts g
  refine hp.write (List.subset_append_left ..) (fun p hp => Or.inl ?_) (fun t _ => Or.inl ?_) ?_
    (fun t _ o _ _ _ => Or.inl ⟨?_, fun b payload raw _ _ => ?_⟩) ?_
  · exact (apart_front (by omega)).2
  · exact apart_slots (t := t) (b := 0) (by omega) (by omega) fun _ => by unfold Apart; omega
  · intro t _
    by_cases hst : slot = t
    · subst hst
      right
      exact hself
    · left
      exact apart_slots (by omega) (by omega) fun h => absurd h hst
  · exact apart_slots (by omega) (by omega) fun _ => by unfold Apart; omega
  · exact apart_slots (by omega) (by omega) fun _ => by unfold Apart; omega
  · intro t _ f' es' hf
    rcases List.mem_append.mp hf with hf | hf
    · left
      exact ⟨hf, fun _ => apart_slots (by omega) (by omega) fun _ => by unfold Apart; omega⟩
    · right
      obtain ⟨hoff, hfe⟩ := Prod.mk.inj (List.mem_singleton.mp hf)
      obtain ⟨rfl, rfl⟩ := Item.footer.inj hfe
      obtain rfl : t = slot := Geometry.partitionBase_inj g.partitionSize_pos (by omega)
      refine ⟨hsize, ?_⟩
      rw [Image.window_write_out (apart_slots (by omega) (by omega) fun _ => by unfold Apart; omega)]
      exact hindex

end

/-! ## An empty volume -/

/-- A volume header copy and nothing of the volume in any slot. -/
structure Blank (env : Env) (m : Image) : Prop where
  size : env.volume.volumeSize.toNat ≤ m.size
  first : m.window 0 volumeHeaderEncodedSize = encodeVolumeHeader env.volume
  second : m.window volumeHeaderCopySize volumeHeaderEncodedSize = encodeVolumeHeader env.volume
  slots : ∀ slot : UInt32, slot < env.volume.partitionCount →
    m.byte (env.partitionBase slot) ≠ magicByte ∧ slotEvidence env m slot = false

/-- The two copies as `open` reads them. -/
theorem run_readVolumeHeader_select {env : Env} (g : Geometry env) {m : Image}
    (hm : env.volume.volumeSize.toNat ≤ m.size) :
    Rd.run (imageSource m) readVolumeHeader =
      selectVolumeHeader (decodeVolumeHeader (m.window 0 volumeHeaderEncodedSize))
        (decodeVolumeHeader (m.window volumeHeaderCopySize volumeHeaderEncodedSize)) := by
  have hin := g.inside
  simp only [volumePrefixSize] at hin
  unfold readVolumeHeader
  simp only [Rd.run_bind, Rd.run_attempt, Rd.run_readExact, Rd.bind_ok]
  rw [imageSource_ok (by simp only [volumeHeaderEncodedSize]; omega),
    imageSource_ok (by simp only [volumeHeaderEncodedSize, volumeHeaderCopySize]; omega)]
  rfl

theorem run_readVolumeHeader {env : Env} (g : Geometry env) {m : Image}
    (hm : env.volume.volumeSize.toNat ≤ m.size)
    (h1 : m.window 0 volumeHeaderEncodedSize = encodeVolumeHeader env.volume)
    (h2 : m.window volumeHeaderCopySize volumeHeaderEncodedSize = encodeVolumeHeader env.volume) :
    Rd.run (imageSource m) readVolumeHeader = .ok env.volume := by
  rw [run_readVolumeHeader_select g hm, h1, h2, g.decodeVolume]
  exact if_pos rfl

/-- A volume without partitions opens with an empty catalog. -/
theorem Blank.recover {env : Env} (g : Geometry env) {m : Image} (h : Blank env m)
    {o : OpenOptions} (ho : o.codecs = env.codecs) (hst : o.verifyPayloadsOnOpen = false)
    {random : Except Status (UInt64 × UInt64)} {id : UInt64 × UInt64}
    (hid : prepareWriter env o random = .ok id) :
    Rd.run (imageSource m) (recover m.size o random) = .ok (recoveredStore env o id {}) := by
  have hv := run_readVolumeHeader g h.size h.first h.second
  have hnone : ∀ slot ∈ slotList env, slotState env m slot = none := by
    intro slot hs
    obtain ⟨e, he, -⟩ := slotHeader_foreign (h.slots slot (mem_slotList.mp hs)).1
    exact slotState_of_error he
  have hclean : ∀ slot ∈ slotList env, ¬ slotDamaged env m slot = true := by
    intro slot hs
    obtain ⟨h1, h2⟩ := h.slots slot (mem_slotList.mp hs)
    obtain ⟨e, he, -⟩ := slotHeader_foreign h1
    rw [slotDamaged_of_error he, h2]
    exact Bool.false_ne_true
  have hstates : slotStates env m = [] := List.filterMap_eq_nil_iff.mpr hnone
  have hnf : ∀ slot < env.volume.partitionCount, ¬ SlotFails env m slot := by
    intro slot hs
    obtain ⟨e, he, hcode⟩ := slotHeader_foreign (h.slots slot hs).1
    rw [slotFails_of_error he, hcode]
    exact fun hf => absurd hf.1 (by decide)
  have hgen : GenerationsOk (slotStates env m) := by
    rw [hstates]
    exact ⟨fun p hp => (by cases hp), List.nodup_nil⟩
  obtain ⟨s, hs⟩ := recover_isOk g h.size hv ho hst hid hnf hgen
  obtain ⟨⟨id', hid', rfl⟩, -⟩ := recover_ok g h.size (fun v hv' => by rw [hv] at hv'; cases hv'; rfl) ho hs
  rw [hid] at hid'
  cases hid'
  rw [hs]
  unfold openedStore
  rw [hstates, List.filter_eq_nil_iff.mpr hclean]

/-! ## Programs without failures -/

section
variable {env : Env} {cut : Disk Item → Image → Prop} {assumed : Disk Item → Prop}

/-- A program that the process `mk` runs ends, without a failure, in what `exec` computes. -/
theorem Reach.exec {α : Type} {mk : WriteProg Status Item α → Proc}
    (hstep : ∀ {x : Sys} {k k' d'}, x.proc = mk k → Effect env x.disk k d' k' →
      Step env cut assumed x { x with disk := d', proc := mk k' })
    (k : WriteProg Status Item α) {d : Disk Item} {writers : List (UInt64 × UInt64)}
    (hx : Reach env cut assumed ⟨d, writers, mk k⟩) :
    Reach env cut assumed
      ⟨(k.exec (Item.bytes env) d).2, writers, mk (.done (k.exec (Item.bytes env) d).1)⟩ := by
  induction k generalizing d with
  | done r => exact hx
  | write off i k ih => exact ih _ (hx.step (hstep rfl (.write off i k)))
  | flush k ih => exact ih _ (hx.step (hstep rfl (.flush k)))

/-- `format` without a failure. -/
theorem Reach.format {d : Disk Item} (h : Initial env ⟨d, [], .formatting (formatProgram env.volume)⟩) :
    Reach env cut assumed ⟨((formatProgram env.volume).exec (Item.bytes env) d).2, [], .down⟩ :=
  (Reach.exec (fun hp he => .formatEffect _ hp he) _ (.init h)).step (.formatted _ (.ok ()) rfl)

/-- A writable open without a failure. -/
theorem Reach.open {d d' : Disk Item} {writers : List (UInt64 × UInt64)} {s t : Store}
    {o : OpenOptions} {id : UInt64 × UInt64} (hx : Reach env cut assumed ⟨d, writers, .down⟩)
    (hassumed : assumed d) (hw : o.writable = true) (hfresh : id ∉ writers) (hid : id ≠ (0, 0))
    (h : recoverOn env (d.volatile (Item.bytes env)) o id = .ok s)
    (hwid : (s.writerIdHigh, s.writerIdLow) = id)
    (hrun : (startWriter s).exec (Item.bytes env) d = ((.ok (), t), d')) :
    Reach env cut assumed ⟨d', writers ++ [id], .idle t none⟩ := by
  have h1 := Reach.exec (fun hp he => .openEffect _ hp he) _
    (hx.step (.startOpen _ o id rfl hassumed hw hfresh hid h hwid))
  rw [hrun] at h1
  exact h1.step (.opened _ t rfl)

/-- A call without a failure. -/
theorem Reach.call {d d' : Disk Item} {writers : List (UInt64 × UInt64)} {s t : Store}
    {last : Option (Op × Except Status Unit)} {r : Except Status Unit} (op : Op)
    (hx : Reach env cut assumed ⟨d, writers, .idle s last⟩)
    (hrun : (op.program s).exec (Item.bytes env) d = ((r, t), d')) :
    Reach env cut assumed ⟨d', writers, .idle t (some (op, r))⟩ := by
  have h1 := Reach.exec (fun hp he => .effect _ hp he) _ (hx.step (.call _ op rfl))
  rw [hrun] at h1
  exact h1.step (.returned _ rfl)

end

/-! ## A sample volume

Two partitions of two blocks each.  The run on it formats the storage, opens the volume,
appends a record, publishes and flushes its block and rotates. -/

namespace Sample

def options : VolumeOptions where
  partitionSize := 8832
  indexRegionSize := 128
  maxBlockPayload := 128
  persistenceQuantum := 128

def volume : VolumeHeader where
  volumeIdHigh := 1
  volumeIdLow := 2
  volumeSize := 25856
  partitionSize := 8832
  partitionCount := 2
  indexRegionSize := 128
  maxBlockPayload := 128
  persistenceQuantum := 128

def env : Env := { volume := volume }

theorem formats : formatHeader 25856 options (.ok (1, 2)) = .ok env.volume := by decide

def image : Image := ⟨25856, fun _ => 0⟩

def disk : Disk Item := { durable := image }

theorem initial : Initial env ⟨disk, [], .formatting (formatProgram env.volume)⟩ where
  size := ⟨options, .ok (1, 2), formats⟩
  nonzero := by decide
  small := by decide
  pending := rfl
  issued := rfl
  flushed := rfl
  writers := rfl
  proc := rfl

def header (slot : UInt32) (generation : UInt64) : PartitionHeader := Writer.newHeader env slot generation {}

def write (d : Disk Item) (off : Nat) (i : Item) : Disk Item := d.issue off i (Item.bytes env i).length

def formatted : Disk Item :=
  (write (write disk 0 (.volume volume)) 4096 (.volume volume)).flush (Item.bytes env)

def created : Disk Item := (write formatted 8192 (.header (header 0 1))).flush (Item.bytes env)

def openOptions : OpenOptions := { writable := true }

def recovered : Store where
  env := env
  writable := true
  writerIdHigh := 3
  writerIdLow := 4

theorem recovered_eq : recoveredStore env openOptions (3, 4) {} = recovered := by
  unfold recoveredStore sortPartitions
  simp only [List.mergeSort_nil]
  rfl


def opened : Store := { recovered with
  partitions := [{ header := header 0 1 }], activeGeneration := 1
  metrics := { syncCalls := 1 } }

theorem sort_single (p : PartitionState) : sortPartitions [p] = [p] := List.mergeSort_singleton _

theorem exec_open_on (d : Disk Item) : (startWriter recovered).exec (Item.bytes env) d =
    ((.ok (), opened), (write d 8192 (.header (header 0 1))).flush (Item.bytes env)) := by
  have h : (startWriter recovered).exec (Item.bytes env) d =
    ((.ok (), { opened with partitions := sortPartitions [{ header := header 0 1 }] }),
      (write d 8192 (.header (header 0 1))).flush (Item.bytes env)) := rfl
  rw [h, sort_single]
  rfl

theorem exec_open : (startWriter recovered).exec (Item.bytes env) formatted = ((.ok (), opened), created) :=
  exec_open_on formatted

def record : Bytes := [7]

/-- The block of one record, as the first of the partition. -/
def block (sequence : UInt32) (previous : UInt64 × UInt64) (writer : UInt64 × UInt64) : BlockHeader where
  generation := 1
  recordCount := 1
  sequence := sequence
  storedSize := 1
  rawSize := 1
  frameSpan := 256
  payloadCrc := crc32c record
  volumeIdHigh := 1
  volumeIdLow := 2
  writerIdHigh := writer.1
  writerIdLow := writer.2
  previousWriterIdHigh := previous.1
  previousWriterIdLow := previous.2

def appended : Store := { opened with
  builder := record, builderRecords := 1, haveLastTime := true, haveUndurableRecords := true
  metrics := { opened.metrics with acceptedRecords := 1, acceptedPayloadBytes := 1 } }

theorem exec_append : ((Op.append record 0 0).program opened).exec (Item.bytes env) created =
    ((.ok (), appended), created) := rfl

def full : PartitionState := Writer.addBlock { header := header 0 1 } (block 0 (0, 0) (3, 4)) 129 256

def published : Store := { opened with
  partitions := [full], haveLastTime := true, haveUndurableRecords := true, dirty := true
  metrics := { opened.metrics with acceptedRecords := 1, acceptedPayloadBytes := 1
                                   publishedBlocks := 1, storedBlockBytes := 129, rawBlockBytes := 1 } }

def framed : Disk Item := write created 12288 (.frame (block 0 (0, 0) (3, 4)) record record)

theorem exec_publish : (Op.publish.program appended).exec (Item.bytes env) created =
    ((.ok (), published), framed) := rfl

def synced : Store := Writer.synced true published

theorem exec_checkpoint : (Op.checkpoint.program published).exec (Item.bytes env) framed =
    ((.ok (), synced), framed.flush (Item.bytes env)) := rfl

def flushedDisk : Disk Item := framed.flush (Item.bytes env)

/-! A second record behind the flush, and its block. -/

def buffered : Store := { synced with
  builder := record, builderRecords := 1, haveUndurableRecords := true
  metrics := { synced.metrics with acceptedRecords := 2, acceptedPayloadBytes := 2 } }

theorem exec_buffer : ((Op.append record 0 0).program synced).exec (Item.bytes env) flushedDisk =
    ((.ok (), buffered), flushedDisk) := rfl

def followed : Store := { synced with
  partitions := [Writer.addBlock full (block 1 (3, 4) (3, 4)) 129 256]
  haveUndurableRecords := true, dirty := true
  metrics := { synced.metrics with acceptedRecords := 2, acceptedPayloadBytes := 2
                                   publishedBlocks := 2, storedBlockBytes := 258, rawBlockBytes := 2 } }

def followedDisk : Disk Item :=
  write flushedDisk 12544 (.frame (block 1 (3, 4) (3, 4)) record record)

theorem exec_follow : (Op.publish.program buffered).exec (Item.bytes env) flushedDisk =
    ((.ok (), followed), followedDisk) := rfl

def footer : PartitionFooter := Writer.sealFooter env full

def sealedDisk : Disk Item :=
  (write (write (framed.flush (Item.bytes env)) 12800 (.index full.activeIndex)) 12928
    (.footer footer full.activeIndex)).flush (Item.bytes env)

def rotated : Disk Item := (write sealedDisk 17024 (.header (header 1 2))).flush (Item.bytes env)

def final : Store := { synced with
  partitions := [{ full with isSealed := true, indexValid := true, footer := footer }, { header := header 1 2 }]
  activeGeneration := 2, activeSlot := 1
  metrics := { synced.metrics with syncCalls := 4, rotations := 1 } }

theorem exec_rotate : ((Op.rotate {}).program synced).exec (Item.bytes env) (framed.flush (Item.bytes env)) =
    ((.ok (), final), rotated) := by
  have h : ((Op.rotate {}).program synced).exec (Item.bytes env) (framed.flush (Item.bytes env)) =
    ((.ok (), { final with partitions := sortPartitions final.partitions }), rotated) := rfl
  have hs : sortPartitions final.partitions = final.partitions :=
    List.mergeSort_of_pairwise (by decide)
  rw [h, hs]

theorem write_seen (d : Disk Item) (off : Nat) (i : Item) :
    (write d off i).volatile (Item.bytes env) =
      (d.volatile (Item.bytes env)).write off (Item.bytes env i) := by
  rw [write, Disk.issue_volatile, List.take_length]

theorem geometry : Geometry env := (formatHeader_geometry (by decide) (by decide) formats).1

theorem slots {slot : UInt32} (h : slot < env.volume.partitionCount) : slot = 0 ∨ slot = 1 := by
  have h' : slot.toNat < 2 := h
  have : slot.toNat = 0 ∨ slot.toNat = 1 := by omega
  rcases this with h | h
  · exact Or.inl (UInt32.toNat_inj.mp h)
  · exact Or.inr (UInt32.toNat_inj.mp h)

/-- The positions and structures of a disk of the sample volume are in order. -/
def InOrder (d : Disk Item) : Prop := Plain env d.issued (d.volatile (Item.bytes env))

theorem InOrder.collisionFree {d : Disk Item} (h : InOrder d) : CollisionFreeNow env d :=
  .of_plain geometry h

theorem InOrder.flush {d : Disk Item} (h : InOrder d) : InOrder (d.flush (Item.bytes env)) := by
  unfold InOrder
  rw [Disk.flush_volatile]
  exact h

theorem InOrder.header {d : Disk Item} (hd : InOrder d) (h : PartitionHeader) {off : Nat}
    (hoff : env.partitionBase h.slot = off) : InOrder (write d off (.header h)) := by
  subst hoff
  unfold InOrder
  rw [write_seen]
  exact Plain.issueHeader geometry hd h (Nat.le_of_eq (Item.bytes_header_length env h))
    (Or.inr (Image.window_write_same _ (Item.bytes_header_length env h).symm))

theorem InOrder.footer {d : Disk Item} (hd : InOrder d) (slot : UInt32) (f : PartitionFooter)
    (es : List IndexEntry) {off : Nat} (hoff : env.partitionBase slot + 4736 = off)
    (hsize : f.indexSize.toNat ≤ 128)
    (hindex : (d.volatile (Item.bytes env)).window (env.partitionBase slot + 4608) f.indexSize.toNat =
      encodeIndex es) : InOrder (write d off (.footer f es)) := by
  subst hoff
  unfold InOrder
  rw [write_seen]
  exact Plain.issueFooter geometry hd f es (Nat.le_of_eq (Item.bytes_footer_length env f es)) hsize
    hindex (Or.inr ⟨f, es, List.mem_append_right _ (List.mem_singleton_self _),
      Image.window_write_same _ (Item.bytes_footer_length env f es).symm⟩)

/-- A block of one record behind the blocks of its partition. -/
theorem InOrder.frame {d : Disk Item} (hd : InOrder d) (slot : UInt32) (o : Nat) (b : BlockHeader)
    {off : Nat} (hoff : env.partitionBase slot + o = off) (ho : o = 4096 ∨ o = 4352)
    (hb : b.inBounds = true) (hst : b.storedSize = 1)
    (hbefore : ∀ o' b' payload' raw',
      (env.partitionBase slot + o', Item.frame b' payload' raw') ∈ d.issued → o' < o →
      o' + (128 + payload'.length) ≤ o) : InOrder (write d off (.frame b record record)) := by
  subst hoff
  unfold InOrder
  rw [write_seen]
  have hq : env.quantum = 128 := rfl
  have hi : env.indexBegin = 4608 := rfl
  refine Plain.issueFrame geometry hd record ?_ ?_ hb ?_ ?_ hbefore ?_
  · simp only [partitionHeaderRegionSize]
    omega
  · simp only [blockHeaderEncodedSize, record, List.length_singleton, hi]
    omega
  · rw [hst]
    rfl
  · intro j h1 h2 h3
    simp only [blockHeaderEncodedSize, record, List.length_singleton] at h2
    rw [hq] at h3
    obtain rfl : j = 128 := by omega
    simp only [List.getD_eq_getElem?_getD]
    rw [List.getElem?_append_right (by simp)]
    simp only [encodeBlockHeader_length, record]
    decide
  · intro j h1 h2 h3 h4
    simp only [blockHeaderEncodedSize] at h2
    rw [hq] at h3
    omega

theorem InOrder.index {d : Disk Item} (hd : InOrder d) (slot : UInt32) (es : List IndexEntry)
    {off : Nat} (hoff : env.partitionBase slot + 4608 = off) (hfit : es.length ≤ 2)
    (hold : ∀ f es', (env.partitionBase slot + 4736, Item.footer f es') ∈ d.issued →
      es' <+: es ∧ f.indexSize.toNat = es'.length * 48) : InOrder (write d off (.index es)) := by
  subst hoff
  unfold InOrder
  rw [write_seen]
  refine Plain.issueIndex geometry hd ?_ hold
  have hi : env.indexRegionSize = 128 := rfl
  rw [encodeIndex_length]
  omega

/-- An index is in place right behind its write. -/
theorem seen_index (d : Disk Item) (off : Nat) {es : List IndexEntry} {n : Nat}
    (hn : n = es.length * 48) :
    ((write d off (.index es)).volatile (Item.bytes env)).window off n = encodeIndex es := by
  rw [write_seen]
  exact Image.window_write_same _ (by simpa [Item.bytes] using hn)

theorem blank_byte : (0 : UInt8) ≠ magicByte := by decide

theorem formatted_inOrder : InOrder formatted := by
  refine InOrder.flush ?_
  unfold InOrder
  rw [write_seen, write_seen]
  exact ((Plain.blank fun _ => blank_byte).issueVolume geometry (Or.inl rfl)).issueVolume geometry (Or.inr rfl)

theorem created_inOrder : InOrder created :=
  (formatted_inOrder.header (header 0 1) rfl).flush

theorem framed_inOrder : InOrder framed := by
  refine created_inOrder.frame 0 4096 _ rfl (Or.inl rfl) rfl rfl fun o' b' payload' raw' h => ?_
  simp [created, formatted, write, disk, Disk.flush, Disk.issue] at h

theorem sealed_inOrder : InOrder sealedDisk := by
  refine InOrder.flush (InOrder.footer ?_ 0 _ _ rfl (by decide) (seen_index _ _ rfl))
  refine framed_inOrder.flush.index 0 _ rfl (by decide) fun f es h => ?_
  simp [framed, created, formatted, write, disk, Disk.flush, Disk.issue] at h

theorem rotated_inOrder : InOrder rotated := (sealed_inOrder.header (header 1 2) rfl).flush

theorem rotated_durable : rotated.volatile (Item.bytes env) = rotated.durable := by
  rw [rotated, Disk.flush_volatile, Disk.flush_durable]

theorem formatted_seen : formatted.volatile (Item.bytes env) =
    (image.write 0 (Item.bytes env (.volume volume))).write 4096 (Item.bytes env (.volume volume)) := by
  unfold formatted
  rw [Disk.flush_volatile, write_seen, write_seen]
  rfl

theorem formatted_blank : Blank env (formatted.volatile (Item.bytes env)) := by
  have hzero : ∀ x, volumePrefixSize ≤ x → (formatted.volatile (Item.bytes env)).byte x ≠ magicByte := by
    intro x hx
    simp only [volumePrefixSize] at hx
    rw [formatted_seen, Image.write_byte_out (by rw [Item.bytes_volume_length]; omega),
      Image.write_byte_out (by rw [Item.bytes_volume_length]; omega)]
    exact blank_byte
  have hbase (slot : UInt32) : volumePrefixSize ≤ env.partitionBase slot := Nat.le_add_right ..
  refine ⟨?_, ?_, ?_, fun slot _ => ⟨hzero _ (hbase slot),
    slotEvidence_foreign (hzero _ (hbase slot)) (hzero _ ?_) (hzero _ ?_)⟩⟩
  · rw [formatted_seen]
    decide
  · rw [formatted_seen, Image.window_write_out (by decide)]
    exact Image.window_write_same _ (Item.bytes_volume_length env volume).symm
  · rw [formatted_seen]
    exact Image.window_write_same _ (Item.bytes_volume_length env volume).symm
  · exact Nat.le_trans (hbase slot) (Nat.le_add_right ..)
  · exact Nat.le_trans (hbase slot) (Nat.le_add_right ..)

/-! The runs behind these disks. -/

section
variable {cut : Disk Item → Image → Prop}

/-- The first open, whatever is assumed of the storage. -/
theorem reach_opened_under {assumed : Disk Item → Prop} (h : assumed formatted) :
    Reach env cut assumed ⟨created, [(3, 4)], .idle opened none⟩ := by
  refine Reach.open (o := openOptions) (s := recovered) (Reach.format initial) h rfl (by decide)
    (by decide) ?_ rfl exec_open
  rw [← recovered_eq]
  exact formatted_blank.recover geometry rfl rfl rfl

theorem reach_opened : Reach env cut (CollisionFreeNow env) ⟨created, [(3, 4)], .idle opened none⟩ :=
  reach_opened_under formatted_inOrder.collisionFree

theorem reach_published : Reach env cut (CollisionFreeNow env)
    ⟨framed, [(3, 4)], .idle published (some (.publish, .ok ()))⟩ :=
  (reach_opened.call _ exec_append).call _ exec_publish

theorem reach_buffered : Reach env cut (CollisionFreeNow env)
    ⟨flushedDisk, [(3, 4)], .idle buffered (some (.append record 0 0, .ok ()))⟩ :=
  (reach_published.call _ exec_checkpoint).call _ exec_buffer

theorem reach_rotated : Reach env cut (CollisionFreeNow env)
    ⟨rotated, [(3, 4)], .idle final (some (.rotate {}, .ok ()))⟩ :=
  (reach_published.call _ exec_checkpoint).call _ exec_rotate

end

end Sample

end TFDB
