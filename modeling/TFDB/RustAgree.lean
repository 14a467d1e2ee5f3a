import TFDB.RustReader
import TFDB.Directory
import TFDB.Crash

/-!
# The checks of two readers

The C++ store and the Rust reader check the structures of an image in another order, over other
integer types.  Where their decoders agree, so do these checks.

* `agree_geometry`, `agree_header`, `agree_acceptFooter` — the structures of a volume;
* `evidence_same` — data in a slot without a valid header;
* `scan_same` — the blocks of a partition, found one after the other;
* `agree_loadIndex` — the blocks of a partition, from its index.
-/

set_option autoImplicit false

namespace TFDB

open ByteLib

/-! ## Reads and geometry -/

theorem Rust.ok_bind {α β : Type} (a : α) (f : α → Except Rust.Error β) :
    (Except.ok a >>= f) = f a := rfl

theorem Rust.error_bind {α β : Type} (e : Rust.Error) (f : α → Except Rust.Error β) :
    (Except.error e >>= f) = .error e := rfl

theorem Agree.bind_of {α β γ δ : Type} {R : α → β → Prop} {S : γ → δ → Prop} {x : Except Status α}
    {y : Except Rust.Error β} {f : α → Except Status γ} {g : β → Except Rust.Error δ}
    (h : Agree R x y) (hfg : ∀ a b, x = .ok a → R a b → Agree S (f a) (g b)) :
    Agree S (x.bind f) (y.bind g) := by
  cases x with
  | ok a =>
    cases y with
    | ok b => exact hfg a b rfl h
    | error e => cases h
  | error e =>
    cases y with
    | ok b => cases h
    | error e' => exact h

theorem Agree.elim {α β : Type} {R : α → β → Prop} {x : Except Status α} {y : Except Rust.Error β}
    (h : Agree R x y) : (∃ a b, x = .ok a ∧ y = .ok b ∧ R a b) ∨
      ∃ e e', x = .error e ∧ y = .error e' ∧ ((e.code = .corrupt ∧ e'.kind = .corrupt) ∨
        (e.code = .unsupported ∧ e'.kind = .unsupported)) := by
  cases x with
  | ok a =>
    cases y with
    | ok b => exact .inl ⟨a, b, rfl, rfl, h⟩
    | error e => cases h
  | error e =>
    cases y with
    | ok b => cases h
    | error e' => exact .inr ⟨e, e', rfl, rfl, h⟩

/-- Two checks with one outcome. -/
theorem Agree.corrupt_ite {α β : Type} {R : α → β → Prop} {p q : Prop} [Decidable p] [Decidable q]
    {s t : String} {x : Except Status α} {y : Except Rust.Error β} (hpq : p ↔ q)
    (h : ¬ p → Agree R x y) :
    Agree R (if p then failWith .corrupt s else x) (if q then Rust.Error.corrupt t else y) :=
  .ite hpq (fun _ => .corrupt _ _) h

/-- A check within a decoder and a check that the other decoder calls. -/
theorem Agree.corrupt_check {α β : Type} {R : α → β → Prop} {p q : Prop} [Decidable p] [Decidable q]
    {s t : String} {x : Except Status α} {y : Except Rust.Error β} (hpq : p ↔ q)
    (h : ¬ p → Agree R x y) :
    Agree R (if p then failWith .corrupt s else x)
      ((if q then Rust.Error.corrupt t else .ok ()).bind fun _ => y) := by
  by_cases hp : p
  · rw [if_pos hp, if_pos (hpq.mp hp)]
    exact .corrupt _ _
  · rw [if_neg hp, if_neg (fun hq => hp (hpq.mpr hq))]
    exact h hp

theorem fileOf_ok {m : Image} {off n : Nat} (h : off + n ≤ m.size) :
    Rust.fileOf m off n = .ok (m.window off n) :=
  if_neg fun hshort => absurd hshort.2 (by omega)

theorem alignUp_same (value : Nat) (quantum : UInt32) :
    Rust.alignUp value quantum = alignUp value quantum.toNat := by
  have hzero : quantum = 0 ↔ quantum.toNat = 0 := UInt32.toNat_inj.symm
  have hlt := quantum.toNat_lt
  simp only [Rust.alignUp, alignUp, hzero]
  split
  · rfl
  split
  · rfl
  · have hmod := Nat.mod_lt value (Nat.pos_of_ne_zero (by assumption))
    split
    · rw [if_neg (by omega)]
    · rw [if_pos (by omega)]

/-- The geometry of a volume whose header the decoders accept. -/
theorem agree_geometry {v : VolumeHeader} (hid : v.volumeIdHigh ≠ 0 ∨ v.volumeIdLow ≠ 0)
    (hcount : 2 ≤ v.partitionCount.toNat) (hpart : v.partitionSize ≠ 0) (hmax : v.maxBlockPayload ≠ 0)
    (backend : Nat) :
    Agree (fun _ _ => True) (validateVolumeGeometry v backend)
      (Rust.validateVolumeGeometry v backend) := by
  have hzero : v.persistenceQuantum.toNat = 0 → ¬ isPowerOfTwo v.persistenceQuantum = true := by
    intro hzero h
    rw [isPowerOfTwo, Bool.and_eq_true, bne_iff_ne] at h
    exact h.1 (UInt32.toNat_inj.mp hzero)
  have hcount' : ¬ v.partitionCount < 2 := by
    rw [UInt32.lt_iff_toNat_lt]
    exact Nat.not_lt.mpr hcount
  have hindex := v.indexRegionSize.toNat_lt
  have hvolume := v.volumeSize.toNat_lt
  have hsize : 0 < v.partitionSize.toNat :=
    Nat.pos_of_ne_zero fun hzero => hpart (UInt64.toNat_inj.mp hzero)
  unfold validateVolumeGeometry Rust.validateVolumeGeometry
  simp only
  rw [if_neg (by push Not; intro h; exact hid.resolve_left (fun hx => hx h))]
  refine .corrupt_ite ?_ fun hnot => ?_
  · simp only [hcount', hpart, hmax, false_or, partitionHeaderRegionSize]
    grind
  push Not at hnot
  obtain ⟨-, hlow, -, -, -, -, -, -, -, -, -, -⟩ := hnot
  have hfixed : partitionHeaderRegionSize + partitionFooterRegionSize + v.indexRegionSize.toNat <
      2 ^ 64 := by
    simp only [partitionHeaderRegionSize, partitionFooterRegionSize]
    omega
  rw [Rust.checked, if_pos hfixed]
  simp only [bind, Except.bind]
  generalize partitionHeaderRegionSize + partitionFooterRegionSize + v.indexRegionSize.toNat = fixed
  generalize volumePrefixSize = front at hlow ⊢
  by_cases hfit : fixed ≥ v.partitionSize.toNat ∨
      v.partitionSize.toNat - fixed < v.persistenceQuantum.toNat
  · rw [if_pos hfit, if_pos (by tauto)]
    exact .corrupt _ _
  -- the partitions fit into the volume if their sum does
  have hdiv : v.partitionCount.toNat > (v.volumeSize.toNat - front) / v.partitionSize.toNat ↔
      v.partitionCount.toNat * v.partitionSize.toNat + front > v.volumeSize.toNat := by
    rw [gt_iff_lt, Nat.div_lt_iff_lt_mul hsize]
    omega
  rw [if_neg hfit]
  by_cases hover : v.partitionCount.toNat >
      (v.volumeSize.toNat - front) / v.partitionSize.toNat
  · rw [if_pos (by tauto)]
    rw [hdiv] at hover
    by_cases h1 : v.partitionCount.toNat * v.partitionSize.toNat < 2 ^ 64
    · rw [Rust.checked, if_pos h1]
      simp only
      by_cases h2 : v.partitionCount.toNat * v.partitionSize.toNat + front < 2 ^ 64
      · rw [Rust.checked, if_pos h2]
        simp only
        rw [if_pos hover]
        exact .corrupt _ _
      · rw [Rust.checked, if_neg h2]
        exact .corrupt _ _
    · rw [Rust.checked, if_neg h1]
      exact .corrupt _ _
  · rw [if_neg (by tauto)]
    rw [hdiv] at hover
    rw [Rust.checked, if_pos (by omega)]
    simp only
    rw [Rust.checked, if_pos (by omega)]
    simp only
    rw [if_neg hover, alignUp_same]
    cases alignUp (blockHeaderEncodedSize + v.maxBlockPayload.toNat) v.persistenceQuantum.toNat with
    | none => exact .corrupt _ _
    | some span =>
      refine .corrupt_ite Iff.rfl fun _ => ?_
      exact trivial

/-! ## Partition headers -/

/-- The codecs of a store that was opened with none of its own. -/
theorem codecFor_builtin {env : Env} (hc : env.codecs = []) (id : CompressionId) (version : UInt16) :
    (env.codecFor id version).isNone = true ↔
      ¬ ((id.value = 0 ∨ id.value = 1 ∨ id.value = 2) ∧ version = 1) := by
  obtain ⟨value⟩ := id
  have hnone : (⟨value⟩ : CompressionId) = .none ↔ value = 0 := by simp [CompressionId.none]
  have hpack : (⟨value⟩ : CompressionId) = .packbits ↔ value = 1 := by simp [CompressionId.packbits]
  have hlz4 : (⟨value⟩ : CompressionId) = .lz4Block ↔ value = 2 := by simp [CompressionId.lz4Block]
  have hversion (c : CompressionCodec) (h1 : c.version = 1) :
      (if c.version = version then some c else none).isNone = true ↔ version ≠ 1 := by
    rw [h1]
    split
    · simp [*]
    · simp [Ne.symm (a := (1 : UInt16)) (by assumption)]
  unfold Env.codecFor builtInCodec
  simp only [hc, List.find?_nil, hnone, hpack, hlz4]
  by_cases h0 : value = 0
  · simp only [h0, if_true, true_or, true_and]
    exact hversion _ rfl
  by_cases h1 : value = 1
  · simp only [h1, if_true, true_or, or_true, true_and]
    exact hversion _ rfl
  by_cases h2 : value = 2
  · simp only [h2, if_true, or_true, true_and]
    exact hversion _ rfl
  · simp [h0, h1, h2]

/-- A decoded header lists a time index. -/
theorem timeIndex_of_decode {bytes : Bytes} {h : PartitionHeader}
    (hd : decodePartitionHeader bytes = .ok h) :
    (h.features.any fun f => f.kind == featureTimeIndex) = true := by
  obtain ⟨-, hdir, rfl⟩ := (decodePartitionHeader_iff bytes h).mp hd
  obtain ⟨d, hd, hk⟩ := hdir.core featureTimeIndex (by simp)
  rw [List.any_eq_true]
  exact ⟨ofRaw d, List.mem_map_of_mem hd, by rw [hk]; rfl⟩

/-- A decoded header names a record format with an ID and a version, or neither. -/
theorem recordFormat_of_decode {bytes : Bytes} {h : PartitionHeader}
    (hd : decodePartitionHeader bytes = .ok h) :
    (h.options.recordFormatId = 0) = (h.options.recordFormatVersion = 0) := by
  unfold decodePartitionHeader at hd
  simp only [bind_ok_iff, ite_error_iff, Except.ok.injEq] at hd
  obtain ⟨u, -, -, -, scan, -, -, hformat, rfl⟩ := hd
  exact not_not.mp hformat

theorem agree_features (env : Env) (fs : List FeatureDescriptor) (saw : Bool) :
    Agree (fun _ found => found = (saw || fs.any fun f => f.kind == featureTimeIndex))
      (checkFeatures env fs) (Rust.validateFeatures env.volume env.indexBegin saw fs) := by
  induction fs generalizing saw with
  | nil => exact (Bool.or_false saw).symm
  | cons f fs ih =>
    have hsize := Geometry.partitionSize_lt env
    unfold checkFeatures Rust.validateFeatures
    simp only [bind, Except.bind]
    by_cases hover : f.regionOffset.toNat + f.regionLength.toNat < 2 ^ 64
    · rw [Rust.checked, if_pos hover]
      simp only
      refine .corrupt_ite ?_ fun hin => ?_
      · show _ ↔ _ > env.partitionSize
        omega
      by_cases htime : f.kind = featureTimeIndex
      · have hnot : ¬ (f.kind ≠ featureCompression ∧ f.kind ≠ featureTimeIndex ∧
            f.kind ≠ featureRecordProfile ∧ f.kind ≠ featureIntegrity ∧ f.regionLength ≠ 0) :=
          fun h => h.2.1 htime
        rw [if_pos (show f.kind = 2 from htime), if_neg hnot]
        refine .corrupt_ite ?_ fun _ => ?_
        · exact ⟨fun h => h.2, fun h => ⟨htime, h⟩⟩
        · refine (ih true).mono fun _ found hfound => ?_
          rw [hfound, List.any_cons, htime, beq_self_eq_true, Bool.true_or, Bool.or_true]
      · rw [if_neg (show ¬ f.kind = 2 from htime), if_neg fun h => htime h.1]
        refine .ite ?_ (fun _ => .unsupported _ _) fun _ => ?_
        · constructor
          · intro h
            exact ⟨fun hk => hk.elim h.1 fun hk => hk.elim h.2.2.1 h.2.2.2.1, h.2.2.2.2⟩
          · intro h
            exact ⟨fun hk => h.1 (.inl hk), htime, fun hk => h.1 (.inr (.inl hk)),
              fun hk => h.1 (.inr (.inr hk)), h.2⟩
        · refine (ih saw).mono fun _ found hfound => ?_
          rw [hfound, List.any_cons, beq_false_of_ne htime, Bool.false_or]
    · rw [Rust.checked, if_neg hover, if_pos (by omega)]
      exact .corrupt _ _

/-- What the Rust reader accepts as the header of a slot. -/
def Rust.acceptHeader (volume : VolumeHeader) (slot : UInt32) (bytes : Bytes) :
    Except Rust.Error Rust.PartitionHeader := do
  let header ← Rust.decodePartitionHeader bytes
  Rust.validatePartitionHeader volume slot header
  .ok header

section
variable {env : Env} (g : Geometry env) {m : Image} {slot : UInt32}

include g in
theorem indexBegin_same : Rust.indexBegin env.volume = .ok env.indexBegin := by
  have hroom := g.room
  refine if_neg ?_
  show ¬ env.partitionSize < partitionFooterRegionSize + env.indexRegionSize
  omega

/-- **The header of a slot.** -/
theorem agree_header (hc : env.codecs = []) (hfeat : Rust.indexBegin env.volume = .ok env.indexBegin)
    {bytes : Bytes} (hl : bytes.length = partitionHeaderEncodedSize) (hshort : ¬ ShortUnsupported bytes)
    (hzero : ∀ h, decodePartitionHeader bytes = .ok h → h.volumeIdHigh = env.volume.volumeIdHigh →
      h.volumeIdLow = env.volume.volumeIdLow → h.generation ≠ 0 ∧ h.options.timeDomainId ≠ 0) :
    Agree SameHeader (acceptPartitionHeader env slot bytes)
      (Rust.acceptHeader env.volume slot bytes) := by
  refine ((agree_partitionHeader hl).mpr hshort).bind_of fun h h' hd hsame => ?_
  subst hsame
  unfold Rust.validatePartitionHeader
  simp only [bind, Except.bind]
  by_cases hid : h.volumeIdHigh = env.volume.volumeIdHigh ∧ h.volumeIdLow = env.volume.volumeIdLow
  · obtain ⟨hgen, htime⟩ := hzero h hd hid.1 hid.2
    by_cases hident : h.slot ≠ slot ∨ h.maxBlockPayload ≠ env.volume.maxBlockPayload ∨
        h.persistenceQuantum ≠ env.volume.persistenceQuantum
    · rw [if_pos (by tauto), if_pos (by tauto)]
      exact .corrupt _ _
    rw [if_neg (by tauto), if_neg (by tauto)]
    have hcodec := codecFor_builtin hc h.options.compression h.options.compressionVersion
    unfold Env.validatePartitionOptions
    by_cases hknown : (h.options.compression.value = 0 ∨ h.options.compression.value = 1 ∨
        h.options.compression.value = 2) ∧ h.options.compressionVersion = 1
    · -- a known codec: the regions decide
      rw [if_neg (fun hx => hcodec.mp hx hknown), if_neg htime,
        if_neg (not_not.mpr (recordFormat_of_decode hd)), if_neg (not_not.mpr hknown), hfeat]
      have hag := agree_features env h.features false
      have hfound := timeIndex_of_decode hd
      cases hx : checkFeatures env h.features with
      | error e =>
        rw [hx] at hag
        cases hy : Rust.validateFeatures env.volume env.indexBegin false h.features with
        | error e' =>
          rw [hy] at hag
          simp only [hy]
          exact hag
        | ok found =>
          rw [hy] at hag
          cases hag
      | ok u =>
        rw [hx] at hag
        cases hy : Rust.validateFeatures env.volume env.indexBegin false h.features with
        | error e' =>
          rw [hy] at hag
          cases hag
        | ok found =>
          rw [hy] at hag
          have htrue : found = true := by
            rw [show found = _ from hag, hfound]
            rfl
          simp only [hy, htrue, not_true_eq_false, if_false]
          exact rfl
    · rw [if_pos (hcodec.mpr hknown), if_pos hknown]
      exact .unsupported _ _
  · rw [if_pos (by tauto), if_pos (by tauto)]
    exact .corrupt _ _

end

/-! ## Footers and evidence -/

/-- What the Rust reader accepts as the footer of a partition. -/
def Rust.acceptFooter (volume : VolumeHeader) (header : Rust.PartitionHeader) (bytes : Bytes) :
    Except Rust.Error PartitionFooter := do
  let footer ← Rust.decodeFooter bytes
  Rust.validateFooter volume header footer
  .ok footer

theorem agree_acceptFooter {env : Env} (hfeat : Rust.indexBegin env.volume = .ok env.indexBegin)
    {h : PartitionHeader} {h' : Rust.PartitionHeader} (hh : SameHeader h h') {bytes : Bytes}
    (hl : bytes.length = partitionFooterEncodedSize) :
    Agree Eq (acceptFooter env h bytes) (Rust.acceptFooter env.volume h' bytes) := by
  subst hh
  refine (agree_footer hl).bind fun f f' hf => ?_
  subst hf
  unfold Rust.validateFooter
  rw [hfeat]
  exact .corrupt_check Iff.rfl fun _ => rfl

/-- The structures that are read of every slot lie inside it. -/
theorem slot_regions {env : Env} (g : Geometry env) (slot : UInt32) :
    env.footerOffset + partitionFooterEncodedSize ≤ env.partitionSize ∧
      partitionHeaderRegionSize + blockHeaderEncodedSize ≤ env.partitionSize ∧
      partitionHeaderEncodedSize ≤ env.partitionSize ∧
      env.partitionBase slot + env.volume.partitionSize.toNat - partitionFooterRegionSize =
        env.partitionBase slot + env.footerOffset := by
  have hroom := g.room
  have hsum := g.indexBegin_add
  have hoff := g.footerOffset_eq
  have hsize : env.volume.partitionSize.toNat = env.partitionSize := rfl
  rw [hsize]
  simp only [partitionHeaderRegionSize, partitionFooterRegionSize, partitionFooterEncodedSize,
    blockHeaderEncodedSize, partitionHeaderEncodedSize] at *
  omega

section
variable {env : Env} (g : Geometry env) {m : Image} (hm : env.volume.volumeSize.toNat ≤ m.size)
  {slot : UInt32} (hs : slot < env.volume.partitionCount)
include g hs

theorem partitionBase_same : Rust.partitionBase env.volume slot = .ok (env.partitionBase slot) := by
  have hend := g.slot_end hs
  have hlt := env.volume.volumeSize.toNat_lt
  have hbase : volumePrefixSize + slot.toNat * env.volume.partitionSize.toNat = env.partitionBase slot :=
    rfl
  unfold Rust.partitionBase
  rw [Rust.checked, if_pos (by omega)]
  simp only [bind, Except.bind]
  rw [Rust.checked, hbase, if_pos (by omega)]

include hm

theorem slot_file {o n : Nat} (h : o + n ≤ env.partitionSize) :
    Rust.fileOf m (env.partitionBase slot + o) n = .ok (m.window (env.partitionBase slot + o) n) := by
  have hend := g.slot_end hs
  exact fileOf_ok (by omega)

theorem evidence_behind {raw : Bytes} (hlen : raw.length ≥ 32)
    (hwrap : ¬ WrappedFrame (m.window (env.partitionBase slot + partitionHeaderRegionSize)
      blockHeaderEncodedSize)) :
    Rust.partitionHasCurrentVolumeEvidence (Rust.fileOf m) env.volume slot raw =
      .ok (! raw.all (· == 0) && (headerEvidence env raw ||
        (footerEvidence env slot
            (m.window (env.partitionBase slot + env.footerOffset) partitionFooterEncodedSize) ||
          blockEvidence env slot
            (m.window (env.partitionBase slot + partitionHeaderRegionSize) blockHeaderEncodedSize)))) := by
  obtain ⟨hinfoot, hinblock, -, hpos⟩ := slot_regions g slot
  have hfooter := slot_file g hm hs hinfoot
  have hblock := slot_file g hm hs hinblock
  rw [Rust.partitionHasCurrentVolumeEvidence]
  cases hall : raw.all (· == 0) with
  | true => rfl
  | false =>
    simp only [Bool.false_eq_true, if_false, Bool.not_false, Bool.true_and]
    have hmark : (slice raw 0 8 = partitionMagic ∧ raw.length ≥ 32 ∧
        get64 raw 16 = env.volume.volumeIdHigh ∧ get64 raw 24 = env.volume.volumeIdLow) ↔
        headerEvidence env raw = true := by
      simp only [headerEvidence, Bool.and_eq_true, beq_iff_eq]
      constructor
      · intro h
        exact ⟨⟨h.1, h.2.2.1⟩, h.2.2.2⟩
      · intro h
        exact ⟨h.1.1, hlen, h.1.2, h.2⟩
    by_cases hhead : headerEvidence env raw = true
    · rw [if_pos (hmark.mpr hhead), hhead]
      rfl
    rw [if_neg (fun h => hhead (hmark.mp h)), partitionBase_same g hs, Bool.eq_false_iff.mpr hhead,
      Rust.ok_bind, hpos, hfooter, Rust.ok_bind, hblock, Rust.ok_bind, Bool.false_or]
    have hfag := agree_footer (Image.window_length m (env.partitionBase slot + env.footerOffset)
      partitionFooterEncodedSize)
    have hbag := (agree_blockHeader (Image.window_length m
      (env.partitionBase slot + partitionHeaderRegionSize) blockHeaderEncodedSize)).mpr hwrap
    generalize m.window (env.partitionBase slot + env.footerOffset) partitionFooterEncodedSize =
      footerBytes at hfag ⊢
    generalize m.window (env.partitionBase slot + partitionHeaderRegionSize) blockHeaderEncodedSize =
      blockBytes at hbag ⊢
    unfold footerEvidence blockEvidence
    obtain ⟨f, f', hf, hf', rfl⟩ | ⟨e, e', hf, hf', -⟩ := hfag.elim <;>
      obtain ⟨b, b', hb, hb', rfl⟩ | ⟨d, d', hb, hb', -⟩ := hbag.elim <;>
      simp only [hf, hf', hb, hb', Bool.false_or, Bool.or_false, Bool.false_eq_true, if_false]
    · split
      · rename_i h
        rw [h]
        rfl
      · rename_i h
        rw [Bool.eq_false_iff.mpr h]
        rfl
    · split
      · rename_i h
        rw [h]
      · rename_i h
        rw [Bool.eq_false_iff.mpr h]

/-- A slot without a valid header holds data of the volume for both readers, or for neither. -/
theorem evidence_same
    (hwrap : ¬ WrappedFrame (m.window (env.partitionBase slot + partitionHeaderRegionSize)
      blockHeaderEncodedSize)) :
    Rust.partitionHasCurrentVolumeEvidence (Rust.fileOf m) env.volume slot
      (m.window (env.partitionBase slot) partitionHeaderEncodedSize) = .ok (slotEvidence env m slot) := by
  have hlen : (m.window (env.partitionBase slot) partitionHeaderEncodedSize).length ≥ 32 := by
    rw [Image.window_length]
    decide
  rw [evidence_behind g hm hs hlen hwrap]
  unfold slotEvidence
  rfl

end

/-! ## The scan -/

/-- A block header that only one decoder accepts is one no scan accepts. -/
theorem decodeBlockHeader_cases {bytes : Bytes} (hl : bytes.length = blockHeaderEncodedSize) :
    (∃ b, decodeBlockHeader bytes = .ok b ∧ Rust.decodeBlockHeader bytes = .ok b) ∨
      ∃ e', Rust.decodeBlockHeader bytes = .error e' ∧ e'.kind ≠ .overwritten ∧
        ((∃ e, decodeBlockHeader bytes = .error e) ∨
          ∃ b, decodeBlockHeader bytes = .ok b ∧ 2 ^ 32 ≤ blockHeaderEncodedSize + b.storedSize.toNat) := by
  by_cases hw : WrappedFrame bytes
  · right
    obtain ⟨hcommon, hin, hwrap⟩ := hw
    have hag : Agree (fun _ b => b = bytes) (commonCheck bytes blockMagic blockHeaderEncodedSize 72)
        (Rust.common bytes blockMagic blockHeaderEncodedSize 72) :=
      agree_common hl (by decide) (by decide)
    obtain ⟨u, b, -, hb, rfl⟩ | ⟨e, e', hx, -⟩ := hag.elim
    · have hout : ¬ Rust.blockInBounds (blockFields b) = true := by
        intro h
        have := ((inBounds_iff (blockFields b)).mp h).2
        exact absurd this (Nat.not_lt.mpr hwrap)
      refine ⟨⟨.corrupt, "invalid block bounds"⟩, ?_, by decide, .inr ⟨blockFields b, ?_, hwrap⟩⟩
      · unfold Rust.decodeBlockHeader
        rw [hb, Rust.ok_bind]
        exact if_pos hout
      · unfold decodeBlockHeader
        rw [hcommon]
        exact if_neg (not_not.mpr hin)
    · rw [hcommon] at hx
      cases hx
  · obtain ⟨b, b', hb, hb', rfl⟩ | ⟨e, e', he, he', hclass⟩ := ((agree_blockHeader hl).mpr hw).elim
    · exact .inl ⟨b, hb, hb'⟩
    · refine .inr ⟨e', he', ?_, .inl ⟨e, he⟩⟩
      rcases hclass with h | h <;> rw [h.2] <;> decide

/-- The cursor of the Rust scan. -/
def ScanState.rust (st : ScanState) : Rust.Cursor where
  cursor := st.cursor
  expectedSequence := st.expectedSequence
  expectedWriter := (st.expectedWriterHigh, st.expectedWriterLow)
  entries := st.entries

theorem blockValid_same {env : Env} {h : PartitionHeader} {h' : Rust.PartitionHeader}
    (hh : SameHeader h h') (limit : Nat) (st : ScanState) (b : BlockHeader) :
    Rust.blockValid env.volume h' limit st.rust b = true ↔ Accepted env h limit st b := by
  subst hh
  have hspan : b.frameSpan % env.volume.persistenceQuantum = 0 ↔ b.frameSpan.toNat % env.quantum = 0 := by
    rw [← UInt32.toNat_inj, UInt32.toNat_mod]
    exact Iff.rfl
  have hcomp : (if b.compression.value = 0 then
        b.compressionVersion == 1 && b.storedSize == b.rawSize
      else b.compression.value == h.options.compression.value &&
        b.compressionVersion == h.options.compressionVersion) = compressionAgrees h.options b := by
    have hnone : b.compression = .none ↔ b.compression.value = 0 := by
      cases b.compression
      simp [CompressionId.none]
    have hvalue : (b.compression == h.options.compression) =
        (b.compression.value == h.options.compression.value) := by
      cases b.compression
      cases h.options.compression
      rw [Bool.eq_iff_iff]
      simp
    rw [compressionAgrees, hvalue]
    simp only [hnone]
    split
    · rw [Bool.and_comm]
    · rfl
  simp only [Rust.blockValid, ScanState.rust, Bool.and_eq_true, beq_iff_eq, bne_iff_ne,
    decide_eq_true_eq, hcomp, Prod.mk.injEq, hspan, alignUp_same]
  constructor
  · rintro ⟨⟨⟨⟨⟨⟨⟨⟨⟨⟨⟨⟨⟨⟨h1, h2⟩, h3⟩, h4⟩, h5, h6⟩, h7⟩, h8⟩, h9⟩, h10⟩, h11⟩, h12⟩, h13⟩, h14⟩, h15⟩, h16⟩
    exact ⟨h1, h2, h4, h3, h5, h6, h7, h8, h9, h10, h11, h12, h13, h14, of_decide_eq_true h15, h16⟩
  · rintro ⟨h1, h2, h4, h3, h5, h6, h7, h8, h9, h10, h11, h12, h13, h14, h15, h16⟩
    exact ⟨⟨⟨⟨⟨⟨⟨⟨⟨⟨⟨⟨⟨⟨h1, h2⟩, h3⟩, h4⟩, h5, h6⟩, h7⟩, h8⟩, h9⟩, h10⟩, h11⟩, h12⟩, h13⟩, h14⟩,
      decide_eq_true h15⟩, h16⟩

/-- The scan of the other language. -/
def Scan.rust (scan : Scan) : Rust.ScanResult := ⟨scan.entries, scan.dataEnd, scan.stoppedOnCorruption⟩

section
variable {env : Env} (g : Geometry env) {m : Image} (hm : env.volume.volumeSize.toNat ≤ m.size)
  {h : PartitionHeader} (hs : h.slot < env.volume.partitionCount) {h' : Rust.PartitionHeader}
  (hh : SameHeader h h')
include g hm hs hh

/-- The two loops go on and stop together while the blocks can be numbered. -/
theorem scanLoop_same {limit : Nat} (hl : limit ≤ env.indexBegin) (steps : Nat) (st : ScanState)
    (hst : st.cursor ≤ limit) (hsteps : limit < steps + st.cursor)
    (hseq : st.expectedSequence = UInt32.ofNat st.entries.length) {scan : Scan}
    (hrun : Rd.run (imageSource m) (scanLoop env h limit steps st) = .ok scan)
    (hroom : scan.entries.length < 2 ^ 32) :
    Rust.scanLoop (Rust.fileOf m) env.volume h' (env.partitionBase h.slot) limit steps st.rust =
      .ok scan.rust := by
  have hsum := g.indexBegin_add
  induction steps generalizing st with
  | zero => omega
  | succ steps ih =>
    simp only [scanLoop, Rd.run_ite] at hrun
    unfold Rust.scanLoop
    have hcur : st.rust.cursor = st.cursor := rfl
    rw [hcur]
    by_cases hin : st.cursor + blockHeaderEncodedSize ≤ limit
    · rw [if_pos hin] at hrun ⊢
      have hread := slot_read g hm hs (o := st.cursor) (n := blockHeaderEncodedSize) (by omega)
      have hfile := slot_file g hm hs (o := st.cursor) (n := blockHeaderEncodedSize) (by omega)
      simp only [Rd.run_bind, Rd.run_readExact, hread, Rd.bind_ok] at hrun
      rw [hfile, Rust.ok_bind]
      obtain ⟨b, hb, hb'⟩ | ⟨e', he', -, hcase⟩ := decodeBlockHeader_cases
        (Image.window_length m (env.partitionBase h.slot + st.cursor) blockHeaderEncodedSize)
      · rw [hb] at hrun
        rw [hb']
        simp only [Rd.run_ite] at hrun ⊢
        have hvalid : Rust.blockValid env.volume h' limit st.rust b = true ↔ Accepted env h limit st b :=
          blockValid_same hh limit st b
        by_cases hacc : Accepted env h limit st b
        · rw [if_pos (scanAccepts_iff.mpr hacc)] at hrun
          rw [if_neg (not_not.mpr (hvalid.mpr hacc))]
          obtain ⟨-, h1, -, -⟩ := alignUp_spec hacc.span
          have h2 := hacc.span_le
          have hread2 := slot_read g hm hs (o := st.cursor + blockHeaderEncodedSize)
            (n := b.storedSize.toNat) (by omega)
          have hfile2 := slot_file g hm hs (o := st.cursor + blockHeaderEncodedSize)
            (n := b.storedSize.toNat) (by omega)
          rw [← Nat.add_assoc] at hread2 hfile2
          simp only [Rd.run_bind, Rd.run_readExact, hread2, Rd.bind_ok, Rd.run_ite] at hrun
          rw [hfile2, Rust.ok_bind, Rust.crc32c_eq]
          by_cases hcrc : crc32c (m.window (env.partitionBase h.slot + st.cursor +
              blockHeaderEncodedSize) b.storedSize.toNat) = b.payloadCrc
          · -- the block is accepted: both loops go on behind it
            rw [if_neg (not_not.mpr hcrc)] at hrun
            rw [if_neg (not_not.mpr hcrc)]
            have hf : FrameAt env m h limit st b _ := ⟨hin, hb, hacc, rfl, hcrc⟩
            have hnext : (st.next b).cursor ≤ limit := hf.bounds.1
            have hleft : limit < steps + (st.next b).cursor := by
              have hb := hf.bounds.2
              simp only [blockHeaderEncodedSize, ScanState.next] at hb ⊢
              omega
            obtain ⟨fs, su, corrupt, hrun', hch, -⟩ := scanLoop_run g hm hs hl steps (st.next b)
              hnext hleft
            have hgrow : st.entries.length + 1 ≤ scan.entries.length := by
              obtain rfl : su.stop corrupt = scan := Except.ok.inj (hrun'.symm.trans hrun)
              show _ ≤ su.entries.length
              rw [hch.entries, List.length_append]
              simp only [ScanState.next, List.length_append, List.length_singleton]
              omega
            have hlast : st.rust.expectedSequence ≠ 0xffffffff := by
              show st.expectedSequence ≠ _
              rw [hseq]
              intro hx
              have hx' := congrArg UInt32.toNat hx
              rw [toNat_ofNat32 (by omega)] at hx'
              have : (0xffffffff : UInt32).toNat = 2 ^ 32 - 1 := rfl
              omega
            have hnum : (st.next b).expectedSequence = UInt32.ofNat (st.next b).entries.length := by
              show st.expectedSequence + 1 = _
              rw [hseq]
              simp [ScanState.next]
            simp only [if_neg hlast]
            exact ih (st.next b) hnext hleft hnum hrun
          · rw [if_pos hcrc] at hrun
            rw [if_pos hcrc]
            cases hrun
            rfl
        · rw [if_neg (fun hx => hacc (scanAccepts_iff.mp hx))] at hrun
          rw [if_pos (fun hx => hacc (hvalid.mp hx))]
          cases hrun
          rfl
      · -- what the Rust decoder refuses is no block for the other scan either
        have hstop : scan = st.stop true := by
          obtain ⟨e, he⟩ | ⟨b, hb, hwrap⟩ := hcase
          · rw [he] at hrun
            exact (Except.ok.inj hrun).symm
          · rw [hb] at hrun
            simp only [Rd.run_ite] at hrun
            rw [if_neg] at hrun
            · exact (Except.ok.inj hrun).symm
            · intro hacc
              obtain ⟨-, h1, -, -⟩ := alignUp_spec (scanAccepts_iff.mp hacc).span
              have := b.frameSpan.toNat_lt
              omega
        rw [he', hstop]
        rfl
    · rw [if_neg hin] at hrun ⊢
      cases hrun
      rfl

/-- **The scan of a partition.** -/
theorem scan_same (hfeat : Rust.indexBegin env.volume = .ok env.indexBegin) (scanLimit limit : Nat)
    (hlim : (if scanLimit = 0 then env.indexBegin else scanLimit) = limit)
    (h1 : partitionHeaderRegionSize ≤ limit) (h2 : limit ≤ env.indexBegin) {scan : Scan}
    (hrun : Rd.run (imageSource m) (scanPartition env h scanLimit) = .ok scan)
    (hroom : scan.entries.length < 2 ^ 32) :
    Rust.scanPartition (Rust.fileOf m) env.volume h' limit = .ok scan.rust := by
  have hnot : ¬ (limit < partitionHeaderRegionSize ∨ limit > env.indexBegin) := by omega
  have hslot : h'.slot = h.slot := by rw [hh]
  simp only [scanPartition, hlim, if_neg hnot] at hrun
  rw [Rust.scanPartition, hfeat, Rust.ok_bind, if_neg hnot, hslot, partitionBase_same g hs, Rust.ok_bind]
  exact scanLoop_same g hm hs hh h2 (limit + 1) {} h1 (by omega) rfl hrun hroom

end

/-! ## The sealed index -/

theorem agree_entries (n : Nat) (bytes : Bytes) :
    Agree Eq (decodeEntries n bytes) (Rust.decodeChunks n bytes) := by
  induction n generalizing bytes with
  | zero => exact rfl
  | succ n ih =>
    refine (agree_indexEntry _).bind fun e e' he => ?_
    subst he
    refine (ih _).bind fun es es' hes => ?_
    subst hes
    exact rfl

theorem agree_chain {env : Env} (es : List IndexEntry) (n expectedOffset : Nat)
    (hle : expectedOffset ≤ env.indexBegin) :
    Agree Eq (checkEntries env n expectedOffset es)
      (Rust.checkChain env.volume env.indexBegin n expectedOffset es) := by
  induction es generalizing n expectedOffset with
  | nil => exact rfl
  | cons e es ih =>
    have hspan : e.frameSpan % env.volume.persistenceQuantum ≠ 0 ↔
        e.frameSpan.toNat % env.quantum ≠ 0 := by
      rw [ne_eq, ne_eq, ← UInt32.toNat_inj, UInt32.toNat_mod]
      exact Iff.rfl
    unfold checkEntries Rust.checkChain
    simp only [hspan, alignUp_same]
    refine .corrupt_or ?_ fun hgood _ => ?_
    · by_cases hoff : e.offset.toNat = expectedOffset
      · have hnot : ¬ env.indexBegin < e.offset.toNat := by omega
        simp only [hnot, false_or, or_assoc]
        exact Iff.rfl
      · constructor
        · intro
          exact .inr (.inl hoff)
        · intro
          exact .inl (.inr (.inl hoff))
    · push Not at hgood
      obtain ⟨-, hoff, -, -, -, -, -, -, hroom⟩ := hgood
      have hlt := Geometry.partitionSize_lt env
      have hin : env.indexBegin ≤ env.partitionSize := by
        unfold Env.indexBegin
        omega
      rw [Rust.checked, if_pos (by omega), Rust.ok_bind]
      exact ih _ _ (by omega)

section
variable {env : Env} (g : Geometry env) {m : Image} (hm : env.volume.volumeSize.toNat ≤ m.size)
  {p : PartitionState} (hs : p.header.slot < env.volume.partitionCount) {h' : Rust.PartitionHeader}
  (hh : SameHeader p.header h')
include g hm hs hh

/-- **The index of a sealed partition.** -/
theorem agree_loadIndex (hfeat : Rust.indexBegin env.volume = .ok env.indexBegin)
    (hsealed : p.isSealed = true) (hoff : p.footer.indexOffset.toNat = env.indexBegin)
    (hregion : p.footer.indexSize.toNat ≤ env.indexRegionSize)
    (hcount : p.footer.indexSize.toNat = p.footer.blockCount.toNat * indexEntryEncodedSize)
    (hsum : ∀ es, Rd.run (imageSource m) (loadIndex env p) = .ok es → es ≠ [] →
      Rust.summarize es = (p.footer.flags, p.footer.minTimeNs, p.footer.maxTimeNs)) :
    Agree Eq (Rd.run (imageSource m) (loadIndex env p))
      (Rust.loadIndex (Rust.fileOf m) env.volume h' p.footer) := by
  have hslot : h'.slot = p.header.slot := by rw [hh]
  have hroom := g.indexBegin_add
  have hread := slot_read g hm hs (o := p.footer.indexOffset.toNat) (n := p.footer.indexSize.toNat)
    (by omega)
  have hfile := slot_file g hm hs (o := p.footer.indexOffset.toNat) (n := p.footer.indexSize.toNat)
    (by omega)
  have hlen := Image.window_length m (env.partitionBase p.header.slot + p.footer.indexOffset.toNat)
    p.footer.indexSize.toNat
  unfold Rust.loadIndex
  unfold loadIndex at hsum ⊢
  rw [if_neg (not_not.mpr hsealed)] at hsum ⊢
  by_cases h0 : p.footer.indexSize = 0
  · have hb : p.footer.blockCount = 0 := by
      rw [h0] at hcount
      simp only [indexEntryEncodedSize] at hcount
      have h0 : (0 : UInt32).toNat = 0 := rfl
      exact UInt32.toNat_inj.mp (by omega)
    rw [if_pos h0, if_pos h0, if_neg (not_not.mpr hb)]
    exact rfl
  rw [if_neg h0] at hsum ⊢
  rw [if_neg h0, hslot, partitionBase_same g hs, Rust.ok_bind, hfile, Rust.ok_bind]
  simp only [Rd.run_bind, Rd.run_readExact, hread, Rd.bind_ok, Rd.run_lift] at hsum ⊢
  generalize m.window (env.partitionBase p.header.slot + p.footer.indexOffset.toNat)
    p.footer.indexSize.toNat = bytes at hlen hsum ⊢
  have hdecode : decodeIndex bytes = decodeEntries (bytes.length / indexEntryEncodedSize) bytes := by
    refine if_neg (not_not.mpr ?_)
    rw [hlen, hcount, Nat.mul_mod_left]
  unfold acceptIndex at hsum ⊢
  rw [Rust.crc32c_eq]
  refine .corrupt_ite Iff.rfl fun hcrc => ?_
  rw [if_neg hcrc] at hsum
  refine Agree.bind_of (hdecode ▸ agree_entries _ bytes) fun es es' hes he => ?_
  subst he
  refine .corrupt_ite Iff.rfl fun hnum => ?_
  rw [hfeat, Rust.ok_bind]
  refine Agree.bind_of (agree_chain es 0 partitionHeaderRegionSize (Nat.le_of_lt g.header_lt_indexBegin))
    fun last last' hlast he => ?_
  subst he
  refine .corrupt_ite Iff.rfl fun hend => ?_
  -- the summary is the one of the entries
  have hne : es ≠ [] := by
    rintro rfl
    apply h0
    have h1 : p.footer.blockCount.toNat = 0 := (not_not.mp hnum).symm
    rw [h1, Nat.zero_mul] at hcount
    exact UInt32.toNat_inj.mp hcount
  have hall := hsum es ?_ hne
  · simp only [hall, ne_eq, not_true_eq_false, or_false, if_false]
    exact rfl
  · rw [hes]
    show (if _ then _ else _) = _
    rw [if_neg hnum, hlast]
    exact if_neg hend

end

end TFDB
