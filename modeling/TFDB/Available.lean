import TFDB.Lib.Torn
import TFDB.Crash

/-!
# When a volume can be opened behind a power cut

A power cut keeps any of the unflushed bytes.  On storage that was all zero, every byte at a header
or a footer position is one of the common front of its structures, or zero; the checks of `open`
report a magic that arrived without the version behind it as an unsupported version.

* `torn_unsupported` — what the check of the version takes for another version;
* `Steady` — the invariant of the durable image, and `FromZero.steady` over whole runs;
* `slotFails_iff` — the two ways one slot stops every `open`;
* `crash_availability` — a read-only open of the image succeeds exactly if a copy of the volume
  header can be read and no slot is in one of these two states.
-/

set_option autoImplicit false

namespace TFDB

open ByteLib Writer

/-! ## The front of a structure -/

/-- What every checksummed structure of this version starts with. -/
def structureFront (magic : Bytes) : Bytes := magic ++ put16 formatMajor ++ put16 formatMinor

/-- The magic of a structure is here, and the version behind it is not. -/
def BareMagic (magic : Bytes) (m : Image) (off : Nat) : Prop :=
  m.window off 8 = magic ∧ m.byte (off + 8) = 0

theorem structureFront_length {magic : Bytes} (hm : magic.length = 8) :
    (structureFront magic).length = 12 := by simp [structureFront, hm]

theorem structureFront_record {magic : Bytes} {n c : Nat} {rest : List (Nat × Bytes)}
    (hp : Placed n 0 (commonFields magic n ++ rest)) (hm : magic.length = 8) (hc : c + 4 ≤ n)
    (hc16 : 16 ≤ c) :
    structureFront magic <+: finishCrc (layout n 0 (commonFields magic n ++ rest)) c := by
  have e1 := slice_record (o := 0) (k := 8) (x := magic) hp hc
    (by simp [commonFields]) hm.symm (by omega)
  have e2 := slice_record (o := 8) (k := 2) (x := put16 formatMajor) hp hc
    (by simp [commonFields]) rfl (by omega)
  have e3 := slice_record (o := 10) (k := 2) (x := put16 formatMinor) hp hc
    (by simp [commonFields]) rfl (by omega)
  generalize finishCrc (layout n 0 (commonFields magic n ++ rest)) c = bs at *
  have hfront : structureFront magic = bs.take 12 := by
    rw [show 12 = 8 + 2 + 2 from rfl, List.take_add, List.take_add]
    unfold structureFront
    rw [← e1, ← e2, ← e3]
    rfl
  rw [hfront]
  exact List.take_prefix 12 bs

theorem structureFront_header (env : Env) (h : PartitionHeader) :
    structureFront partitionMagic <+: Item.bytes env (.header h) := by
  have hp := partitionHeaderFields_placed h env.volume.partitionSize env.volume.indexRegionSize
  simp only [partitionHeaderFields, List.append_assoc] at hp
  have := structureFront_record (c := 104) hp rfl (by decide) (by decide)
  simpa only [Item.bytes, encodePartitionHeader, partitionHeaderFields, List.append_assoc] using this

theorem structureFront_footer (env : Env) (f : PartitionFooter) (es : List IndexEntry) :
    structureFront footerMagic <+: Item.bytes env (.footer f es) :=
  structureFront_record (partitionFooterFields_placed f) rfl (by decide) (by decide)

theorem get16_window (m : Image) {off n o : Nat} (h : o + 2 ≤ n) :
    get16 (m.window off n) o =
      UInt16.ofNat ((m.byte (off + o)).toNat + 256 * (m.byte (off + (o + 1))).toNat) := by
  rw [get16, Image.slice_window _ h]
  simp [Image.window, List.range_succ, leNat, Nat.add_assoc]

/-- The common check complains about the version of what has the right magic. -/
theorem commonCheck_unsupported {bytes magic : Bytes} {n c : Nat} {e : Status}
    (h : commonCheck bytes magic n c = .error e) (hcode : e.code = .unsupported) :
    slice bytes 0 8 = magic ∧ (get16 bytes 8 ≠ formatMajor ∨ get16 bytes 10 > formatMinor) := by
  unfold commonCheck at h
  split at h
  · cases h
    cases hcode
  split at h
  · cases h
    cases hcode
  rename_i hmagic
  have hslice : slice bytes 0 8 = magic := by
    simp only [magicIs, not_not, Bool.and_eq_true, decide_eq_true_eq, beq_iff_eq] at hmagic
    exact hmagic.2
  split at h
  · rename_i hmajor
    exact ⟨hslice, Or.inl hmajor⟩
  split at h
  · rename_i hminor
    exact ⟨hslice, Or.inr hminor⟩
  simp only at h
  split at h
  · cases h
    cases hcode
  split at h
  · cases h
    cases hcode
  split at h
  · cases h
    cases hcode
  · cases h

/-- Of all that torn writes leave of a structure, only a bare magic is taken for another version. -/
theorem torn_unsupported {magic : Bytes} {m : Image} {off n c : Nat} {e : Status}
    (ht : Torn (structureFront magic) m off) (hm : magic.length = 8) (hn : 12 ≤ n)
    (h : commonCheck (m.window off n) magic n c = .error e) (hcode : e.code = .unsupported) :
    BareMagic magic m off := by
  obtain ⟨hslice, hversion⟩ := commonCheck_unsupported h hcode
  rw [Image.slice_window _ (by omega), Nat.add_zero] at hslice
  have hfields : ∀ j, (structureFront magic).getD (8 + j) 0 = ([1, 0, 0, 0] : Bytes).getD j 0 := by
    intro j
    unfold structureFront
    rw [List.append_assoc, List.getD_eq_getElem?_getD, List.getElem?_append_right (by omega), hm,
      Nat.add_sub_cancel_left, ← List.getD_eq_getElem?_getD]
    rfl
  have hbyte (j : Nat) (hj : j < 4) :
      m.byte (off + (8 + j)) = 0 ∨ m.byte (off + (8 + j)) = ([1, 0, 0, 0] : Bytes).getD j 0 := by
    rw [← hfields j]
    exact ht (8 + j) (by rw [structureFront_length hm]; omega)
  have h9 : m.byte (off + 9) = 0 := (hbyte 1 (by decide)).elim id id
  have h10 : m.byte (off + 10) = 0 := (hbyte 2 (by decide)).elim id id
  have h11 : m.byte (off + 11) = 0 := (hbyte 3 (by decide)).elim id id
  rcases hbyte 0 (by decide) with h8 | h8
  · exact ⟨hslice, h8⟩
  · -- the version arrived: it is the right one
    rw [get16_window m (by omega), get16_window m (by omega), h8, h9, h10, h11] at hversion
    exact absurd hversion (by decide)

/-- A bare magic is reported as an unsupported version. -/
theorem commonCheck_bareMagic {magic : Bytes} {m : Image} {off n c : Nat} (hn : 12 ≤ n)
    (h : BareMagic magic m off) :
    commonCheck (m.window off n) magic n c =
      failWith .unsupported "unsupported format major" := by
  obtain ⟨hmagic, hversion⟩ := h
  have hslice : slice (m.window off n) 0 8 = magic := by
    rw [Image.slice_window _ (by omega), Nat.add_zero]
    exact hmagic
  have hmajor : get16 (m.window off n) 8 ≠ formatMajor := by
    rw [get16_window m (by omega), hversion]
    intro he
    have hmod := congrArg (fun v : UInt16 => v.toNat % 2) he
    simp only [UInt16.toNat_ofNat', formatMajor] at hmod
    have hzero : (0 : UInt8).toNat = 0 := rfl
    have hone : (1 : UInt16).toNat = 1 := rfl
    omega
  unfold commonCheck
  rw [Image.window_length, if_neg (Nat.lt_irrefl n)]
  rw [if_neg (by simp [magicIs, hslice]; omega), if_pos hmajor]

/-! ## Headers and footers in place -/

/-- The assumption on checksums on storage without another volume: whatever passes the check of a
header or a footer at its place is one that was written there. -/
structure Unforged (env : Env) (issued : List (Nat × Item)) (m : Image) : Prop
    extends CollisionFree env issued m where
  headers : ∀ slot : UInt32, slot < env.volume.partitionCount →
    let bytes := m.window (env.partitionBase slot) partitionHeaderEncodedSize
    Checks bytes partitionMagic partitionHeaderEncodedSize 104 →
      ∃ h, (env.partitionBase slot, .header h) ∈ issued ∧ bytes = Item.bytes env (.header h)
  footers : ∀ slot : UInt32, slot < env.volume.partitionCount →
    let off := env.partitionBase slot + env.footerOffset
    let bytes := m.window off partitionFooterEncodedSize
    Checks bytes footerMagic partitionFooterEncodedSize 100 →
      ∃ f es, (off, .footer f es) ∈ issued ∧ bytes = Item.bytes env (.footer f es)

/-- A header that passes the common check is rejected as corrupt, or its directory is. -/
theorem decodePartitionHeader_error {bs : Bytes} {e : Status} (hd : decodePartitionHeader bs = .error e)
    (hc : commonCheck bs partitionMagic partitionHeaderEncodedSize 104 = .ok ()) :
    e.code = .corrupt ∨ ∃ start : FeatureScan, start.compression = false ∧ start.configRanges = [] ∧
      (List.range (get16 bs 88).toNat).foldlM (decodeFeature bs) start = .error e := by
  unfold decodePartitionHeader at hd
  rw [hc] at hd
  simp only [bind, Except.bind] at hd
  split at hd
  · cases hd
    exact Or.inl rfl
  split at hd
  · cases hd
    exact Or.inl rfl
  split at hd
  · rename_i hfold
    cases hd
    exact Or.inr ⟨_, rfl, rfl, hfold⟩
  · left
    split at hd
    · cases hd
      rfl
    split at hd
    · cases hd
      rfl
    · cases hd

/-- A written header whose codec has version zero is rejected as corrupt. -/
theorem decodePartitionHeader_zero {h : PartitionHeader} {partitionSize : UInt64}
    {indexRegionSize : UInt32} (hv : h.options.compressionVersion = 0) {e : Status}
    (hd : decodePartitionHeader (encodePartitionHeader h partitionSize indexRegionSize) = .error e) :
    e.code = .corrupt := by
  rcases decodePartitionHeader_error hd (commonCheck_encodePartitionHeader ..) with
    hcode | ⟨start, h1, h2, hfold⟩
  · exact hcode
  have hp := partitionHeaderFields_placed h partitionSize indexRegionSize
  have hcount : get16 (encodePartitionHeader h partitionSize indexRegionSize) 88 = 4 :=
    get16_record hp (by decide) (by simp [partitionHeaderFields]) (by decide)
  have hfirst : decodeDescriptor (encodePartitionHeader h partitionSize indexRegionSize)
      (128 + 0 * featureDescriptorSize) = compressionDescriptor h.options :=
    decodeDescriptor_encode (List.mem_zipIdx_iff_getElem?.mpr rfl)
  have hfail : decodeFeature (encodePartitionHeader h partitionSize indexRegionSize) start 0 =
      failWith .corrupt "invalid compression feature descriptor" := by
    rw [decodeFeature_eq start hfirst (by simp [compressionDescriptor, featureRequired])
      (allZero_encodePartitionHeader (by decide) (by decide) (by decide))
      (allZero_encodePartitionHeader (by decide) (by decide) (by decide)), h2]
    simp [checkConfigRange, compressionDescriptor, decodeFeatureKind, h1, hv, Except.bind, failWith]
  rw [hcount, show (4 : UInt16).toNat = 4 from rfl] at hfold
  change ([0, 1, 2, 3] : List Nat).foldlM _ _ = _ at hfold
  rw [List.foldlM_cons, hfail] at hfold
  cases hfold
  rfl

section
variable {env : Env} (g : Geometry env)
include g

/-- A written header in place is accepted or rejected as corrupt. -/
theorem HeaderMade.accepts {h : PartitionHeader} (hm : HeaderMade env h) {e : Status}
    (hh : acceptPartitionHeader env h.slot (Item.bytes env (.header h)) = .error e) :
    e.code = .corrupt := by
  by_cases hv : h.options.compressionVersion = 0
  · cases hd : decodePartitionHeader (Item.bytes env (.header h)) with
    | ok h' => exact absurd hv (decodePartitionHeader_version hd)
    | error e' =>
      have hcode := decodePartitionHeader_zero hv hd
      unfold acceptPartitionHeader at hh
      rw [hd] at hh
      cases hh
      exact hcode
  · have he := hm.eq
    have hok : HeaderOk env h :=
      ⟨by rw [he]; rfl, by rw [he]; rfl, by rw [he]; rfl, by rw [he]; rfl, hm.options, hv⟩
    rw [acceptPartitionHeader_encode g hok] at hh
    cases hh

variable {issued : List (Nat × Item)} {writers : List (UInt64 × UInt64)} {m : Image}
  (hitems : ∀ w ∈ issued, ItemOk env issued writers w.1 w.2) (hu : Unforged env issued m)
include hitems hu

/-- Where a header can be torn, the only header of another version is a bare magic. -/
theorem slotHeader_unsupported {slot : UInt32} (hs : slot < env.volume.partitionCount)
    (ht : Torn (structureFront partitionMagic) m (env.partitionBase slot))
    {e : Status} (hh : slotHeader env m slot = .error e) :
    e.code = .unsupported ↔ BareMagic partitionMagic m (env.partitionBase slot) := by
  have hcheck : ∀ st, commonCheck (m.window (env.partitionBase slot) partitionHeaderEncodedSize)
      partitionMagic partitionHeaderEncodedSize 104 = .error st → e = st := by
    intro st hc
    unfold slotHeader acceptPartitionHeader decodePartitionHeader at hh
    rw [hc] at hh
    cases hh
    rfl
  constructor
  · intro hcode
    cases hc : commonCheck (m.window (env.partitionBase slot) partitionHeaderEncodedSize)
        partitionMagic partitionHeaderEncodedSize 104 with
    | error st =>
      rw [hcheck st hc] at hcode
      exact torn_unsupported ht rfl (by decide) hc hcode
    | ok u =>
      obtain ⟨h, hmem, hbytes⟩ := hu.headers slot hs hc
      obtain ⟨hmade, hoff⟩ : HeaderMade env h ∧ env.partitionBase slot = env.partitionBase h.slot :=
        hitems _ hmem
      obtain rfl : slot = h.slot := Geometry.partitionBase_inj g.partitionSize_pos hoff
      unfold slotHeader at hh
      rw [hbytes] at hh
      rw [hmade.accepts g hh] at hcode
      cases hcode
  · intro hbare
    rw [hcheck _ (commonCheck_bareMagic (by decide) hbare)]

omit g in
/-- Where a footer can be torn, the only footer of another version is a bare magic. -/
theorem slotFooter_unsupported {h : PartitionHeader} (hs : h.slot < env.volume.partitionCount)
    (ht : Torn (structureFront footerMagic) m (env.partitionBase h.slot + env.footerOffset)) :
    (∃ e, slotFooter env m h = .error e ∧ e.code = .unsupported) ↔
      BareMagic footerMagic m (env.partitionBase h.slot + env.footerOffset) := by
  have hcheck : ∀ st, commonCheck (m.window (env.partitionBase h.slot + env.footerOffset)
      partitionFooterEncodedSize) footerMagic partitionFooterEncodedSize 100 = .error st →
      slotFooter env m h = .error st := by
    intro st hc
    unfold slotFooter acceptFooter decodePartitionFooter
    rw [hc]
    rfl
  constructor
  · rintro ⟨e, hf, hcode⟩
    cases hc : commonCheck (m.window (env.partitionBase h.slot + env.footerOffset)
        partitionFooterEncodedSize) footerMagic partitionFooterEncodedSize 100 with
    | error st =>
      rw [hcheck st hc] at hf
      cases hf
      exact torn_unsupported ht rfl (by decide) hc hcode
    | ok u =>
      obtain ⟨f, es, hmem, hbytes⟩ := hu.footers h.slot hs hc
      have hmade : FooterMade env issued _ f es := hitems _ hmem
      unfold slotFooter acceptFooter at hf
      rw [hbytes] at hf
      have hdec : decodePartitionFooter (Item.bytes env (.footer f es)) = .ok f := hmade.decodes hitems
      rw [hdec] at hf
      simp only [bind, Except.bind] at hf
      split at hf
      · cases hf
        cases hcode
      · cases hf
  · intro hbare
    exact ⟨_, hcheck _ (commonCheck_bareMagic (by decide) hbare), rfl⟩

end

/-! ## The invariant of the durable image -/

/-- Every header and every footer position of the image is torn at most. -/
structure TornOnly (env : Env) (m : Image) : Prop where
  headers : ∀ slot : UInt32, slot < env.volume.partitionCount →
    Torn (structureFront partitionMagic) m (env.partitionBase slot)
  footers : ∀ slot : UInt32, slot < env.volume.partitionCount →
    Torn (structureFront footerMagic) m (env.partitionBase slot + env.footerOffset)

/-- The copy of the volume header at `off` is whole. -/
def CopyWhole (env : Env) (off : Nat) (m : Image) : Prop :=
  m.window off (encodeVolumeHeader env.volume).length = encodeVolumeHeader env.volume

/-- What holds of the disk in every run that started on zeros. -/
structure Steady (env : Env) (d : Disk Item) : Prop where
  torn : TornOnly env d.durable
  volume : ∀ off, (off, Item.volume env.volume) ∈ d.flushed → CopyWhole env off d.durable

section
variable {env : Env} (g : Geometry env) {issued : List (Nat × Item)}
  {writers : List (UInt64 × UInt64)} (hitems : ∀ w ∈ issued, ItemOk env issued writers w.1 w.2)
include g hitems

/-- An issued item lies in front of the slots or inside one part of one slot. -/
theorem ItemOk.place {off : Nat} {i : Item} (h : ItemOk env issued writers off i) :
    (off + (i.bytes env).length ≤ volumePrefixSize) ∨
      ∃ t o, off = env.partitionBase t + o ∧ o + (i.bytes env).length ≤ env.partitionSize ∧
        ((o = 0 ∧ ∃ hd, i = .header hd) ∨ (4096 ≤ o ∧ o + (i.bytes env).length ≤ env.footerOffset) ∨
          (o = env.footerOffset ∧ ∃ f es, i = .footer f es)) := by
  obtain ⟨e1, e2, e3, e4, e5, e6, e7, e8, e9, e10⟩ := slot_parts g
  cases i with
  | volume v =>
    obtain ⟨-, hoff⟩ := h
    left
    rw [Item.bytes_volume_length]
    omega
  | header hd =>
    obtain ⟨-, rfl⟩ := h
    right
    refine ⟨hd.slot, 0, rfl, ?_, Or.inl ⟨rfl, hd, rfl⟩⟩
    rw [Item.bytes_header_length]
    omega
  | frame b payload raw =>
    obtain ⟨-, -, h1, h2, h3⟩ := FrameMade.region g hitems h
    right
    refine ⟨b.slot, off - env.partitionBase b.slot, by omega, ?_, Or.inr (Or.inl ⟨by omega, ?_⟩)⟩
    · rw [Item.bytes_frame_length]
      omega
    · rw [Item.bytes_frame_length]
      omega
  | index es =>
    obtain ⟨t, -, rfl, hfit⟩ := h
    have hlen : (Item.bytes env (.index es)).length = (encodeIndex es).length := rfl
    right
    exact ⟨t, env.indexBegin, rfl, by omega, Or.inr (Or.inl ⟨by omega, by omega⟩)⟩
  | footer f es =>
    obtain ⟨p, -, hoff, -⟩ : FooterMade env issued off f es := h
    right
    refine ⟨p.header.slot, env.footerOffset, hoff, ?_, Or.inr (Or.inr ⟨rfl, f, es, rfl⟩)⟩
    rw [Item.bytes_footer_length]
    omega

/-- An issued write starts with the front of a header where there is one. -/
theorem ItemOk.starts_header {off : Nat} {i : Item} (h : ItemOk env issued writers off i)
    (slot : UInt32) :
    Starts (structureFront partitionMagic) (env.partitionBase slot) off (i.bytes env) := by
  obtain ⟨e1, e2, e3, e4, e5, e6, e7, e8, e9, e10⟩ := slot_parts g
  have hlen : (structureFront partitionMagic).length = 12 := structureFront_length rfl
  have hout (ha : Apart off (i.bytes env).length (env.partitionBase slot) 12) :
      Starts (structureFront partitionMagic) (env.partitionBase slot) off (i.bytes env) := by
    left
    rw [hlen]
    exact ha.symm
  rcases h.place g hitems with hfront | ⟨t, o, rfl, hfit, ⟨rfl, hd, rfl⟩ | hdata | ⟨ho, -⟩⟩
  · exact hout (apart_front (t := slot) (b := 0) hfront).1
  · by_cases hts : t = slot
    · exact .inr ⟨hts ▸ rfl, structureFront_header env hd⟩
    · exact hout (apart_slots (b := 0) hfit (by omega) fun hst => absurd hst hts)
  · exact hout (apart_slots (b := 0) hfit (by omega) fun _ => by unfold Apart; omega)
  · exact hout (apart_slots (b := 0) hfit (by omega) fun _ => by unfold Apart; omega)

/-- And with the front of a footer where there is one. -/
theorem ItemOk.starts_footer {off : Nat} {i : Item} (h : ItemOk env issued writers off i)
    (slot : UInt32) :
    Starts (structureFront footerMagic) (env.partitionBase slot + env.footerOffset) off
      (i.bytes env) := by
  obtain ⟨e1, e2, e3, e4, e5, e6, e7, e8, e9, e10⟩ := slot_parts g
  have hlen : (structureFront footerMagic).length = 12 := structureFront_length rfl
  have hout (ha : Apart off (i.bytes env).length (env.partitionBase slot + env.footerOffset) 12) :
      Starts (structureFront footerMagic) (env.partitionBase slot + env.footerOffset) off
        (i.bytes env) := by
    left
    rw [hlen]
    exact ha.symm
  rcases h.place g hitems with hfront | ⟨t, o, rfl, hfit, ⟨rfl, hd, rfl⟩ | hdata | ⟨ho, f, es, rfl⟩⟩
  · exact hout (apart_front hfront).1
  · rw [Item.bytes_header_length] at hout hfit
    exact hout (apart_slots hfit (by omega) fun _ => by unfold Apart; omega)
  · exact hout (apart_slots hfit (by omega) fun _ => by unfold Apart; omega)
  · by_cases hts : t = slot
    · rw [hts, ho]
      exact .inr ⟨rfl, structureFront_footer env f es⟩
    · exact hout (apart_slots hfit (by omega) fun hst => absurd hst hts)

/-- A part of an issued write puts back what a copy of the volume header holds, or is elsewhere. -/
theorem ItemOk.refills {off : Nat} {i : Item} (h : ItemOk env issued writers off i) (j : Nat)
    {copy : Nat} (hcopy : copy = 0 ∨ copy = volumeHeaderCopySize) :
    Refills copy (encodeVolumeHeader env.volume) off ((i.bytes env).take j) := by
  obtain ⟨e1, e2, e3, e4, e5, e6, e7, e8, e9, e10⟩ := slot_parts g
  have hlen : ((i.bytes env).take j).length ≤ (i.bytes env).length := List.length_take_le' ..
  have hcopylen : (encodeVolumeHeader env.volume).length = 256 :=
    Item.bytes_volume_length env env.volume
  have slots (t : UInt32) (o : Nat) : volumePrefixSize ≤ env.partitionBase t + o :=
    Nat.le_trans (Nat.le_add_right volumePrefixSize _) (Nat.le_add_right ..)
  have behind (hoff : volumePrefixSize ≤ off) :
      Refills copy (encodeVolumeHeader env.volume) off ((i.bytes env).take j) := by
    left
    omega
  cases i with
  | volume v =>
    obtain ⟨rfl, hoff⟩ := h
    by_cases hsame : off = copy
    · right
      exact ⟨hsame, List.take_prefix j _⟩
    · left
      rw [Item.bytes_volume_length] at hlen
      omega
  | header hd =>
    obtain ⟨-, rfl⟩ := h
    exact behind (slots hd.slot 0)
  | frame b payload raw =>
    obtain ⟨-, -, h1, -, -⟩ := FrameMade.region g hitems h
    have := slots b.slot 0
    exact behind (by omega)
  | index es =>
    obtain ⟨t, -, rfl, -⟩ := h
    exact behind (slots t _)
  | footer f es =>
    obtain ⟨p, -, hoff, -⟩ : FooterMade env issued off f es := h
    exact behind (hoff ▸ slots p.header.slot _)

end

/-! ## Runs that started on zeros -/

section
variable {env : Env} {cut : Disk Item → Image → Prop} {assumed : Disk Item → Prop}

/-- All a step can do to the disk. -/
theorem Step.disk_cases {x y : Sys} (h : Step env cut assumed x y) :
    y.disk = x.disk ∨ (∃ off i n, y.disk = x.disk.issue off i n) ∨
      y.disk = x.disk.flush (Item.bytes env) ∨ ∃ m, cut x.disk m ∧ y.disk = x.disk.restart m := by
  have effect {α : Type} {d d' : Disk Item} {k k' : WriteProg Status Item α}
      (he : Effect env d k d' k') :
      d' = d ∨ (∃ off i n, d' = d.issue off i n) ∨ d' = d.flush (Item.bytes env) := by
    cases he with
    | write off i k => exact Or.inr (Or.inl ⟨off, i, _, rfl⟩)
    | writeFails off i k n st => exact Or.inr (Or.inl ⟨off, i, n, rfl⟩)
    | flush k => exact Or.inr (Or.inr rfl)
    | flushFails k st => exact Or.inl rfl
  cases h with
  | formatEffect hp he => exact (effect he).imp_right fun h => h.imp_right Or.inl
  | openEffect hp he => exact (effect he).imp_right fun h => h.imp_right Or.inl
  | effect hp he => exact (effect he).imp_right fun h => h.imp_right Or.inl
  | powerCut m hm => exact Or.inr (Or.inr (Or.inr ⟨m, hm, rfl⟩))
  | _ => exact Or.inl rfl

end

section
variable (env : Env)

/-- A power cut keeps any bytes of the pending writes. -/
def anyCut (d : Disk Item) (m : Image) : Prop := d.MixCut (Item.bytes env) m

/-- A run whose storage was all zero when `format` began. -/
inductive FromZero : Sys → Prop
  | init {x : Sys} (h : Initial env x) (hz : ∀ a, x.disk.durable.byte a = 0) : FromZero x
  | step {x y : Sys} (hx : FromZero x) (h : Step env (anyCut env) (CollisionFreeNow env) x y) :
      FromZero y

/-- The magic of the header of this slot arrived without its version, and there is data in the
slot. -/
def HeaderBare (m : Image) (slot : UInt32) : Prop :=
  BareMagic partitionMagic m (env.partitionBase slot) ∧ slotEvidence env m slot = true

/-- The magic of the footer behind a valid header arrived without its version. -/
def FooterBare (m : Image) (slot : UInt32) : Prop :=
  (∃ h, slotHeader env m slot = .ok h) ∧
    BareMagic footerMagic m (env.partitionBase slot + env.footerOffset)

variable {env} {x : Sys} {m : Image}

theorem FromZero.reach (h : FromZero env x) :
    Reach env (anyCut env) (CollisionFreeNow env) x := by
  induction h with
  | init h hz => exact .init h
  | step hx h ih => exact .step ih h

/-- The geometry and the log of such a run. -/
theorem FromZero.simulated (h : FromZero env x) :
    Geometry env ∧ env.volume.volumeSize.toNat ≤ x.disk.durable.size ∧
      (∀ off v, (off, Item.volume v) ∈ x.disk.issued → v = env.volume) ∧
      (∀ w ∈ x.disk.issued, ItemOk env x.disk.issued x.writers w.1 w.2) ∧
      (∀ w ∈ x.disk.pending, (w.off, w.item) ∈ x.disk.issued) ∧
      ∀ w ∈ x.disk.flushed, w ∈ x.disk.issued := by
  have hcut (d : Disk Item) (m : Image) (h : anyCut env d m) : d.MixCut (Item.bytes env) m := h
  obtain ⟨φ, hpr, -⟩ := reach_simulated hcut (fun _ h => h) h.reach
  have hlog := hpr.log hcut fun _ h => h
  exact ⟨hpr.geometry, Nat.le_of_eq (hpr.size hcut), hpr.volumes, hlog.items, hlog.pending,
    hlog.flushed⟩

/-- What was torn at most is so behind every cut, and a whole copy of the volume header stays. -/
theorem FromZero.cut (h : FromZero env x) (hs : Steady env x.disk) (hm : anyCut env x.disk m) :
    TornOnly env m ∧ ∀ off, (off, Item.volume env.volume) ∈ x.disk.flushed → CopyWhole env off m := by
  obtain ⟨g, -, -, hitems, hpending, hflushed⟩ := h.simulated
  refine ⟨⟨fun slot hslot => ?_, fun slot hslot => ?_⟩, fun off hoff => ?_⟩
  · exact hm.torn (hs.torn.headers slot hslot) fun w hw =>
      (hitems _ (hpending w hw)).starts_header g hitems slot
  · exact hm.torn (hs.torn.footers slot hslot) fun w hw =>
      (hitems _ (hpending w hw)).starts_footer g hitems slot
  · obtain ⟨-, hcopy⟩ : _ ∧ (off = 0 ∨ off = volumeHeaderCopySize) := hitems _ (hflushed _ hoff)
    exact hm.refilled (hs.volume off hoff) fun w hw =>
      (hitems _ (hpending w hw)).refills g hitems w.len hcopy

/-- **The invariant of a run on zeroed storage.** -/
theorem FromZero.steady (h : FromZero env x) : Steady env x.disk := by
  induction h with
  | init h hz =>
    have blank (front : Bytes) (off : Nat) : Torn front _ off := fun i _ => .inl (hz (off + i))
    refine ⟨⟨fun slot _ => blank _ _, fun slot _ => blank _ _⟩, fun off hoff => ?_⟩
    rw [h.flushed] at hoff
    cases hoff
  | @step x y hx h ih =>
    rcases h.disk_cases with hd | ⟨off, i, n, hd⟩ | hd | ⟨m, hm, hd⟩
    · rw [hd]
      exact ih
    · rw [hd]
      exact ⟨ih.torn, ih.volume⟩
    · rw [hd]
      obtain ⟨g, -, -, hitems, hpending, hflushed⟩ := hx.simulated
      have hrefills (off : Nat) (hcopy : off = 0 ∨ off = volumeHeaderCopySize) :
          ∀ w ∈ x.disk.pending, Refills off (encodeVolumeHeader env.volume) w.off
            (w.bytes (Item.bytes env)) :=
        fun w hw => (hitems _ (hpending w hw)).refills g hitems w.len hcopy
      -- what the machine sees is one of the images a cut may leave
      refine ⟨(hx.cut ih (Disk.volatile_mixCut _ x.disk)).1, fun off hoff => ?_⟩
      rw [Disk.flush_durable]
      rcases (Disk.mem_flush_flushed _).mp hoff with hoff | ⟨w, hw, hwhole, heq⟩
      · obtain ⟨-, hcopy⟩ : _ ∧ (off = 0 ∨ off = volumeHeaderCopySize) := hitems _ (hflushed _ hoff)
        exact Disk.volatile_refilled (hrefills off hcopy) (Or.inl (ih.volume off hoff))
      · have hmem := hpending w hw
        obtain ⟨rfl, hitem⟩ := Prod.mk.inj heq
        rw [← hitem] at hmem
        obtain ⟨-, hcopy⟩ : _ ∧ (w.off = 0 ∨ w.off = volumeHeaderCopySize) := hitems _ hmem
        refine Disk.volatile_refilled (hrefills w.off hcopy) (Or.inr ⟨w, hw, rfl, ?_⟩)
        rw [Write.whole, decide_eq_true_eq] at hwhole
        rw [Write.bytes, List.take_of_length_le hwhole, ← hitem]
        rfl
    · rw [hd]
      obtain ⟨htorn, hvolume⟩ := hx.cut ih hm
      exact ⟨htorn, hvolume⟩

/-! ## Which images open -/

/-- The slots that stop every open of a torn image. -/
theorem slotFails_iff (g : Geometry env) {issued : List (Nat × Item)}
    {writers : List (UInt64 × UInt64)} (hitems : ∀ w ∈ issued, ItemOk env issued writers w.1 w.2)
    (hu : Unforged env issued m) (ht : TornOnly env m) {slot : UInt32}
    (hs : slot < env.volume.partitionCount) :
    SlotFails env m slot ↔ HeaderBare env m slot ∨ FooterBare env m slot := by
  cases hh : slotHeader env m slot with
  | error e =>
    rw [slotFails_of_error hh, slotHeader_unsupported g hitems hu hs (ht.headers slot hs) hh]
    constructor
    · exact Or.inl
    · rintro (hbare | ⟨⟨h, hok⟩, -⟩)
      · exact hbare
      · rw [hh] at hok
        cases hok
  | ok h =>
    have hslot := slotHeader_slot hh
    rw [slotFails_of_ok hh, slotFooter_unsupported hitems hu (hslot ▸ hs)
      (hslot ▸ ht.footers slot hs), hslot]
    constructor
    · exact fun hbare => Or.inr ⟨⟨h, hh⟩, hbare⟩
    · rintro (⟨hbare, -⟩ | ⟨-, hbare⟩)
      · -- a bare magic is no valid header
        unfold slotHeader acceptPartitionHeader decodePartitionHeader at hh
        rw [commonCheck_bareMagic (by decide) hbare] at hh
        cases hh
      · exact hbare

/-- The partitions of a collision-free image have different generations. -/
theorem generationsOk_issued (g : Geometry env) {issued : List (Nat × Item)}
    {writers : List (UInt64 × UInt64)} (hitems : ∀ w ∈ issued, ItemOk env issued writers w.1 w.2)
    (hc : CollisionFree env issued m) : GenerationsOk (slotStates env m) := by
  have hof : ∀ p ∈ slotStates env m, SlotOf env p.header.slot p.header.generation := by
    intro p hp
    obtain ⟨hslot, hstate⟩ := mem_slotStates.mp hp
    obtain ⟨h, hmade, -, -, heq, -⟩ := slotHeader_issued g hitems hc hslot (slotState_header hstate)
    rw [heq]
    exact hmade.slotOf
  have hnodup : (slotStates env m).Nodup :=
    (slotList_nodup env).filterMap fun a a' p ha ha' =>
      (slotState_slot ha).symm.trans (slotState_slot ha')
  refine ⟨fun p hp => (hof p hp).1, hnodup.map_on fun p hp q hq hpq => ?_⟩
  -- the ring gives one slot to a generation
  have hslots : p.header.slot = q.header.slot := (hof p hp).unique (hpq ▸ hof q hq)
  have hp' := (mem_slotStates.mp hp).2
  rw [hslots, (mem_slotStates.mp hq).2] at hp'
  exact (Option.some.inj hp').symm

/-- One of the two copies of the volume header can be read. -/
def HeaderReadable (env : Env) (m : Image) : Prop :=
  ∃ off, (off = 0 ∨ off = volumeHeaderCopySize) ∧
    decodeVolumeHeader (m.window off volumeHeaderEncodedSize) = .ok env.volume

theorem CopyWhole.readable (g : Geometry env) (hw : CopyWhole env 0 m) : HeaderReadable env m := by
  have hlen : (encodeVolumeHeader env.volume).length = volumeHeaderEncodedSize :=
    Item.bytes_volume_length env env.volume
  unfold CopyWhole at hw
  rw [hlen] at hw
  refine ⟨0, Or.inl rfl, ?_⟩
  rw [hw, g.decodeVolume]

theorem selectVolumeHeader_ok {first second : Except Status VolumeHeader} {v : VolumeHeader}
    (h : selectVolumeHeader first second = .ok v) : first = .ok v ∨ second = .ok v := by
  unfold selectVolumeHeader at h
  cases first with
  | ok a =>
    left
    cases second with
    | ok b =>
      simp only at h
      split at h
      · exact h
      · cases h
    | error e => exact h
  | error e =>
    right
    cases second with
    | ok b => exact h
    | error e' =>
      simp only at h
      repeat' split at h
      all_goals cases h

/-- The volume header is read exactly if one of its copies can be. -/
theorem readVolumeHeader_iff (g : Geometry env) (hm : env.volume.volumeSize.toNat ≤ m.size)
    {issued : List (Nat × Item)} (hv : ∀ off v, (off, Item.volume v) ∈ issued → v = env.volume)
    (hc : CollisionFree env issued m) :
    Rd.run (imageSource m) readVolumeHeader = .ok env.volume ↔ HeaderReadable env m := by
  have hcopy {off : Nat} (hoff : off = 0 ∨ off = volumeHeaderCopySize) {v : VolumeHeader}
      (h : decodeVolumeHeader (m.window off volumeHeaderEncodedSize) = .ok v) : v = env.volume :=
    hv _ v (hc.volume off hoff v h)
  rw [run_readVolumeHeader_select g hm]
  constructor
  · intro h
    rcases selectVolumeHeader_ok h with h | h
    · exact ⟨0, Or.inl rfl, h⟩
    · exact ⟨volumeHeaderCopySize, Or.inr rfl, h⟩
  · rintro ⟨off, rfl | rfl, h⟩
    · rw [h]
      cases hsecond : decodeVolumeHeader (m.window volumeHeaderCopySize volumeHeaderEncodedSize) with
      | error e => rfl
      | ok v =>
        obtain rfl := hcopy (Or.inr rfl) hsecond
        exact if_pos rfl
    · rw [h]
      cases hfirst : decodeVolumeHeader (m.window 0 volumeHeaderEncodedSize) with
      | error e => rfl
      | ok v =>
        obtain rfl := hcopy (Or.inl rfl) hfirst
        exact if_pos rfl

/-- **Crash availability.**  A read-only open of what a power cut left of zeroed storage succeeds
exactly if a copy of the volume header can be read, which holds once `format` has returned, and no
footer behind a valid header, and no header of a slot with data, has its magic without its version. -/
theorem crash_availability (h : FromZero env x) (hm : anyCut env x.disk m)
    (hu : Unforged env x.disk.issued m) :
    ((∃ s, openReadOnly env.codecs m = .ok s) ↔ HeaderReadable env m ∧
      ∀ slot < env.volume.partitionCount, ¬ HeaderBare env m slot ∧ ¬ FooterBare env m slot) ∧
    ((0, Item.volume env.volume) ∈ x.disk.flushed → HeaderReadable env m) := by
  obtain ⟨g, hsize, hvolumes, hitems, -, -⟩ := h.simulated
  obtain ⟨htorn, hcopies⟩ := h.cut h.steady hm
  have hsize' : env.volume.volumeSize.toNat ≤ m.size := by
    rw [hm.1]
    exact hsize
  have hread := readVolumeHeader_iff g hsize' hvolumes hu.toCollisionFree
  have hfails : ∀ slot < env.volume.partitionCount,
      ¬ SlotFails env m slot ↔ ¬ HeaderBare env m slot ∧ ¬ FooterBare env m slot := by
    intro slot hs
    rw [slotFails_iff g hitems hu htorn hs, not_or]
  refine ⟨⟨?_, ?_⟩, fun hformat => (hcopies 0 hformat).readable g⟩
  · rintro ⟨s, hs⟩
    have hrun := hs
    simp only [openReadOnly, recover, Rd.run_bind] at hrun
    obtain ⟨v, hv, -⟩ := bind_ok_inv hrun
    obtain rfl := readVolumeHeader_eq hvolumes hu.toCollisionFree hv
    refine ⟨hread.mp hv, fun slot hslot => ?_⟩
    exact (hfails slot hslot).mp ((openReadOnly_ok g hsize' hvolumes hu.toCollisionFree hs).2.1 slot hslot)
  · rintro ⟨hreadable, hnone⟩
    exact recover_isOk (o := { codecs := env.codecs }) g hsize' (hread.mpr hreadable) rfl rfl rfl
      (fun slot hslot => (hfails slot hslot).mpr (hnone slot hslot))
      (generationsOk_issued g hitems hu.toCollisionFree)

/-! ## A footer cut behind its magic

The run publishes and checkpoints one block and rotates.  The storage takes the footer in two
transfers, one of 100 bytes and one of the rest; the power cut keeps eight bytes of the first and
all of the second. -/

theorem FromZero.exec {α : Type} {mk : WriteProg Status Item α → Proc}
    (hstep : ∀ {x : Sys} {k k' d'}, x.proc = mk k → Effect env x.disk k d' k' →
      Step env (anyCut env) (CollisionFreeNow env) x { x with disk := d', proc := mk k' })
    (k : WriteProg Status Item α) {d : Disk Item} {writers : List (UInt64 × UInt64)}
    (hx : FromZero env ⟨d, writers, mk k⟩) :
    FromZero env ⟨(k.exec (Item.bytes env) d).2, writers, mk (.done (k.exec (Item.bytes env) d).1)⟩ := by
  induction k generalizing d with
  | done r => exact hx
  | write off i k ih => exact ih _ (hx.step (hstep rfl (.write off i k)))
  | flush k ih => exact ih _ (hx.step (hstep rfl (.flush k)))

theorem FromZero.call {d d' : Disk Item} {writers : List (UInt64 × UInt64)} {s t : Store}
    {last : Option (Op × Except Status Unit)} {r : Except Status Unit} (op : Op)
    (hx : FromZero env ⟨d, writers, .idle s last⟩)
    (hrun : (op.program s).exec (Item.bytes env) d = ((r, t), d')) :
    FromZero env ⟨d', writers, .idle t (some (op, r))⟩ := by
  have h1 := FromZero.exec (fun hp he => .effect _ hp he) _ (hx.step (.call _ op rfl))
  rw [hrun] at h1
  exact h1.step (.returned _ rfl)

theorem Unforged.of_plain (g : Geometry env) {issued : List (Nat × Item)} (h : Plain env issued m) :
    Unforged env issued m where
  toCollisionFree := .of_plain g h
  headers := fun slot hs hc => (h.header slot hs).resolve_left (not_not_intro hc)
  footers := fun slot hs hc => (h.footer slot hs).resolve_left (not_not_intro hc)

end

namespace Sample

def indexed : Disk Item := write (framed.flush (Item.bytes env)) 12800 (.index full.activeIndex)

def sealing : Disk Item := write indexed 12928 (.footer footer full.activeIndex)

/-- What the cut leaves of the footer. -/
def tornFooter : Bytes :=
  footerMagic ++ zeros 92 ++ (Item.bytes env (.footer footer full.activeIndex)).drop 100

/-- What it leaves of the volume. -/
def cutImage : Image :=
  ((framed.flush (Item.bytes env)).durable.write 12800 (Item.bytes env (.index full.activeIndex))).write
    12928 tornFooter

theorem zero_synced : FromZero env
    ⟨framed.flush (Item.bytes env), [(3, 4)], .idle synced (some (.checkpoint, .ok ()))⟩ := by
  have hformat : FromZero env ⟨formatted, [], .down⟩ :=
    (FromZero.exec (fun hp he => .formatEffect _ hp he) _ (.init initial fun _ => rfl)).step
      (.formatted _ (.ok ()) rfl)
  have hrecover : recoverOn env (formatted.volatile (Item.bytes env)) openOptions (3, 4) =
      .ok recovered := by
    rw [← recovered_eq]
    exact formatted_blank.recover geometry rfl rfl rfl
  have hopening := FromZero.exec (fun hp he => .openEffect _ hp he) _
    (hformat.step (.startOpen _ openOptions (3, 4) rfl formatted_inOrder.collisionFree rfl (by decide)
      (by decide) hrecover rfl))
  rw [exec_open] at hopening
  have hopen := hopening.step (.opened _ opened rfl)
  exact ((hopen.call _ exec_append).call _ exec_publish).call _ exec_checkpoint

theorem zero_sealing : ∃ k, FromZero env ⟨sealing, [(3, 4)], .busy (.rotate {}) k⟩ :=
  ⟨_, ((zero_synced.step (.call _ (.rotate {}) rfl)).step
    (.effect _ rfl (.write 12800 (.index full.activeIndex) _))).step
    (.effect _ rfl (.write 12928 (.footer footer full.activeIndex) _))⟩

/-- The writes to the medium in front of the seal. -/
theorem framed_seen : (framed.flush (Item.bytes env)).durable =
    (((image.write 0 (Item.bytes env (.volume volume))).write 4096
      (Item.bytes env (.volume volume))).write 8192 (Item.bytes env (.header (header 0 1)))).write
        12288 (Item.bytes env (.frame (block 0 (0, 0) (3, 4)) record record)) := by
  rw [Disk.flush_durable, framed, write_seen, created, Disk.flush_volatile, write_seen, formatted_seen]

theorem tornFooter_length : tornFooter.length = 256 := by
  have hlen := Item.bytes_footer_length env footer full.activeIndex
  rw [tornFooter, List.length_append, List.length_append, List.length_drop, hlen]
  rfl

/-- What is left of the footer is a part of it, or what was there before. -/
theorem tornFooter_byte {i : Nat} (hi : i < 256) : tornFooter.getD i 0 = 0 ∨
    tornFooter.getD i 0 = (Item.bytes env (.footer footer full.activeIndex)).getD i 0 := by
  have hfront := structureFront_footer env footer full.activeIndex
  unfold tornFooter
  generalize Item.bytes env (.footer footer full.activeIndex) = bs at hfront ⊢
  have hlen : (footerMagic ++ zeros 92).length = 100 := rfl
  by_cases h8 : i < 8
  · right
    have hmagic : footerMagic <+: bs := List.IsPrefix.trans ⟨_, List.append_assoc .. |>.symm⟩ hfront
    rw [List.append_assoc, List.getD_append _ _ _ _ h8]
    exact (prefix_getD hmagic h8).symm
  · by_cases h100 : i < 100
    · left
      rw [List.getD_append _ _ _ _ h100, List.getD_append_right _ _ _ _ (Nat.not_lt.mp h8)]
      rw [zeros, List.getD_replicate _ (show i - footerMagic.length < 92 by
        rw [show footerMagic.length = 8 from rfl]; omega)]
    · right
      rw [List.getD_append_right _ _ _ _ (Nat.not_lt.mp h100), hlen, List.getD_eq_getElem?_getD,
        List.getElem?_drop, ← List.getD_eq_getElem?_getD, Nat.add_sub_cancel' (Nat.not_lt.mp h100)]

theorem footer_blank {i : Nat} (hi : i < 256) :
    (framed.flush (Item.bytes env)).durable.byte (12928 + i) = 0 := by
  have hframe := Item.bytes_frame_length env (block 0 (0, 0) (3, 4)) record record
  have hwindow : (framed.flush (Item.bytes env)).durable.window 12928 256 = image.window 12928 256 := by
    rw [framed_seen, Image.window_write_out (by rw [hframe]; decide),
      Image.window_write_out (by rw [Item.bytes_header_length]; omega),
      Image.window_write_out (by rw [Item.bytes_volume_length]; omega),
      Image.window_write_out (by rw [Item.bytes_volume_length]; omega)]
  rw [← Image.window_getD _ hi, hwindow, Image.window_getD _ hi]
  rfl

theorem cutImage_cut : anyCut env sealing cutImage := by
  have hindex : (Item.bytes env (.index full.activeIndex)).length = 48 := encodeIndex_length _
  have hfooter := Item.bytes_footer_length env footer full.activeIndex
  have hdurable : sealing.durable = (framed.flush (Item.bytes env)).durable := rfl
  refine ⟨by rw [hdurable, cutImage, Image.write_size, Image.write_size], fun x => ?_⟩
  by_cases hin : 12928 ≤ x ∧ x < 12928 + 256
  · obtain ⟨i, rfl⟩ : ∃ i, x = 12928 + i := ⟨x - 12928, by omega⟩
    have hbyte : cutImage.byte (12928 + i) = tornFooter.getD i 0 := by
      rw [cutImage, Image.write_byte_in (by omega) (by rw [tornFooter_length]; omega),
        Nat.add_sub_cancel_left]
    rw [hbyte]
    rcases tornFooter_byte (show i < 256 by omega) with h | h
    · left
      rw [h]
      exact (footer_blank (by omega)).symm
    · right
      refine ⟨_, List.mem_append_right _ (List.mem_singleton_self _), ⟨hin.1, ?_⟩, ?_⟩
      · rw [Write.bytes, List.take_length, hfooter]
        exact hin.2
      · rw [Write.bytes, List.take_length, h, Nat.add_sub_cancel_left]
  · have hbyte : cutImage.byte x = ((framed.flush (Item.bytes env)).durable.write 12800
        (Item.bytes env (.index full.activeIndex))).byte x := by
      rw [cutImage, Image.write_byte_out (by rw [tornFooter_length]; omega)]
    rw [hbyte]
    by_cases hcov : 12800 ≤ x ∧ x < 12800 + 48
    · right
      refine ⟨_, List.mem_append_left _ (List.mem_singleton_self _), ⟨hcov.1, ?_⟩, ?_⟩
      · rw [Write.bytes, List.take_length, hindex]
        exact hcov.2
      · rw [Write.bytes, List.take_length]
        exact Image.write_byte_in hcov.1 (by rw [hindex]; exact hcov.2)
    · left
      exact Image.write_byte_out (by rw [hindex]; omega)

theorem cutImage_footer : BareMagic footerMagic cutImage 12928 := by
  have hbyte (i : Nat) (hi : i < 256) : cutImage.byte (12928 + i) = tornFooter.getD i 0 := by
    rw [cutImage, Image.write_byte_in (by omega) (by rw [tornFooter_length]; omega),
      Nat.add_sub_cancel_left]
  constructor
  · refine (@window_eq_iff cutImage 12928 footerMagic).mpr fun i hi => ?_
    have hi : i < 8 := hi
    rw [hbyte i (by omega)]
    exact prefix_getD ⟨_, List.append_assoc .. |>.symm⟩ hi
  · rw [hbyte 8 (by decide)]
    rfl

/-- The medium behind a cut that has kept the index, and `t` of the footer. -/
def sealedWith (t : Bytes) : Image :=
  ((framed.flush (Item.bytes env)).durable.write 12800 (Item.bytes env (.index full.activeIndex))).write
    12928 t

theorem sealedWith_header (t : Bytes) : (sealedWith t).window 8192 partitionHeaderEncodedSize =
    Item.bytes env (.header (header 0 1)) := by
  have hindex : (Item.bytes env (.index full.activeIndex)).length = 48 := encodeIndex_length _
  unfold sealedWith
  rw [Image.window_write_out (Or.inl (by decide)), Image.window_write_out (by decide), framed_seen,
    Image.window_write_out (by decide)]
  exact Image.window_write_same _ (Item.bytes_header_length env _).symm

theorem sealedWith_plain {t : Bytes} (ht : t.length ≤ 256)
    (hnone : ¬ Checks ((sealedWith t).window 12928 partitionFooterEncodedSize) footerMagic
      partitionFooterEncodedSize 100) : Plain env sealing.issued (sealedWith t) := by
  have hindexed : InOrder indexed := by
    refine framed_inOrder.flush.index 0 _ rfl (by decide) fun f es h => ?_
    simp [framed, created, formatted, write, disk, Disk.flush, Disk.issue] at h
  have hseen : indexed.volatile (Item.bytes env) = (framed.flush (Item.bytes env)).durable.write 12800
      (Item.bytes env (.index full.activeIndex)) := by
    rw [indexed, write_seen, Disk.flush_volatile, Disk.flush_durable]
  unfold sealedWith at hnone ⊢
  rw [← hseen] at hnone ⊢
  exact @Plain.issueFooter env geometry indexed.issued _ hindexed 0 footer full.activeIndex _ ht
    (by decide) (seen_index _ _ rfl) (Or.inl hnone)

theorem sealedWith_unforged {t : Bytes} (ht : t.length ≤ 256)
    (hbare : BareMagic footerMagic (sealedWith t) 12928) :
    Unforged env sealing.issued (sealedWith t) := by
  refine .of_plain geometry (sealedWith_plain ht fun hcheck => ?_)
  rw [Checks, commonCheck_bareMagic (by decide) hbare] at hcheck
  cases hcheck

theorem sealing_flushed : (0, Item.volume env.volume) ∈ sealing.flushed := by
  simp [sealing, indexed, framed, created, formatted, write, Disk.flush, Disk.issue, Write.whole, env]

theorem sealing_header : (8192, Item.header (header 0 1)) ∈ sealing.issued := by
  simp [sealing, indexed, framed, created, formatted, write, disk, Disk.flush, Disk.issue]

/-- A bare magic at the footer of the sample partition. -/
theorem sealedWith_bare {t : Bytes} (hbare : BareMagic footerMagic (sealedWith t) 12928) :
    FooterBare env (sealedWith t) 0 := by
  obtain ⟨k, hrun⟩ := zero_sealing
  obtain ⟨-, -, -, hitems, -⟩ := hrun.simulated
  have hmade : HeaderMade env (header 0 1) := (hitems _ sealing_header).1
  exact ⟨⟨_, hmade.slotHeader geometry (by decide) (sealedWith_header t)⟩, hbare⟩

end Sample

/-- The magic of a footer without its version is enough: the volume of the sample run does not open
any more, though its header can be read. -/
theorem sample_crash_availability : HeaderReadable Sample.env Sample.cutImage ∧
    ¬ ∃ s, openReadOnly Sample.env.codecs Sample.cutImage = .ok s := by
  obtain ⟨k, hrun⟩ := Sample.zero_sealing
  have hunforged : Unforged Sample.env Sample.sealing.issued Sample.cutImage :=
    Sample.sealedWith_unforged (Nat.le_of_eq Sample.tornFooter_length) Sample.cutImage_footer
  obtain ⟨hiff, hformat⟩ := crash_availability hrun Sample.cutImage_cut hunforged
  refine ⟨hformat Sample.sealing_flushed, fun hopen => ?_⟩
  obtain ⟨-, hnone⟩ := hiff.mp hopen
  exact (hnone 0 (by decide)).2 (Sample.sealedWith_bare Sample.cutImage_footer)

/-- What a power cut leaves that keeps a prefix of each pending write; `kept` has their lengths. -/
def prefixesKept (env : Env) (d : Disk Item) (kept : List Nat) : Image :=
  (d.pending.zip kept).foldl (fun m w => m.write w.1.off ((w.1.bytes (Item.bytes env)).take w.2)) d.durable

/-- A run on zeroed storage is cut when the index and the first eight bytes of the footer have
arrived; the volume does not open any more. -/
theorem bare_footer_not_available :
    ∃ k, FromZero Sample.env ⟨Sample.sealing, [(3, 4)], .busy (.rotate {}) k⟩ ∧
      ¬ ∃ s, openReadOnly Sample.env.codecs (prefixesKept Sample.env Sample.sealing [48, 8]) = .ok s := by
  obtain ⟨k, hrun⟩ := Sample.zero_sealing
  refine ⟨k, hrun, ?_⟩
  obtain ⟨g, hsize, hvolumes, -⟩ := hrun.simulated
  have hindex : (Item.bytes Sample.env (.index Sample.full.activeIndex)).length = 48 :=
    encodeIndex_length _
  have hfooter := Item.bytes_footer_length Sample.env Sample.footer Sample.full.activeIndex
  have hmagic : (Item.bytes Sample.env (.footer Sample.footer Sample.full.activeIndex)).take 8 =
      footerMagic := by
    obtain ⟨rest, hrest⟩ := structureFront_footer Sample.env Sample.footer Sample.full.activeIndex
    rw [← hrest, structureFront, List.append_assoc, List.append_assoc]
    rfl
  have hkept : prefixesKept Sample.env Sample.sealing [48, 8] = Sample.sealedWith footerMagic := by
    have hfirst : (Write.mk 12800 (.index Sample.full.activeIndex) 48 : Write Item).bytes
        (Item.bytes Sample.env) = Item.bytes Sample.env (.index Sample.full.activeIndex) :=
      List.take_of_length_le (Nat.le_of_eq hindex)
    have hsecond : (Write.mk 12928 (.footer Sample.footer Sample.full.activeIndex) 256 : Write Item).bytes
        (Item.bytes Sample.env) = Item.bytes Sample.env (.footer Sample.footer Sample.full.activeIndex) :=
      List.take_of_length_le (Nat.le_of_eq hfooter)
    have hpending : Sample.sealing.pending =
        [⟨12800, .index Sample.full.activeIndex, 48⟩,
          ⟨12928, .footer Sample.footer Sample.full.activeIndex, 256⟩] := by
      rw [← hindex, ← hfooter]
      rfl
    unfold prefixesKept
    rw [hpending]
    simp only [List.zip_cons_cons, List.zip_nil_left, List.foldl_cons, List.foldl_nil, hfirst, hsecond,
      hmagic, List.take_of_length_le (Nat.le_of_eq hindex)]
    rfl
  have hblank := Sample.footer_blank (i := 8) (by decide)
  have hbare : BareMagic footerMagic (Sample.sealedWith footerMagic) 12928 := by
    refine ⟨Image.window_write_same _ rfl, ?_⟩
    rw [Sample.sealedWith, Image.write_byte_out (Or.inr (by decide)),
      Image.write_byte_out (Or.inr (by rw [hindex]; decide)), hblank]
  rw [hkept]
  rintro ⟨s, hs⟩
  have hlarge : Sample.env.volume.volumeSize.toNat ≤ (Sample.sealedWith footerMagic).size := by
    rw [Sample.sealedWith, Image.write_size, Image.write_size]
    exact hsize
  have hunforged := Sample.sealedWith_unforged (by decide) hbare
  obtain ⟨⟨h, hh⟩, -⟩ := Sample.sealedWith_bare hbare
  obtain ⟨-, hnone, -⟩ := openReadOnly_ok g hlarge hvolumes hunforged.toCollisionFree hs
  have hfails : slotFooter Sample.env (Sample.sealedWith footerMagic) h =
      failWith .unsupported "unsupported format major" := by
    have hoff : Sample.env.partitionBase h.slot + Sample.env.footerOffset = 12928 := by
      rw [slotHeader_slot hh]
      rfl
    unfold slotFooter acceptFooter decodePartitionFooter
    rw [hoff, commonCheck_bareMagic (by decide) hbare]
    rfl
  exact hnone 0 (by decide) ((slotFails_of_ok hh).mpr ⟨_, hfails, rfl⟩)

end TFDB
