import TFDB.RustFormat

/-!
# Two families of decoders

The C++ and the Rust decoders of one structure agree when both accept it with the same fields, or
both refuse it with the same class of error.  They do on every byte string of the exact size but
three kinds:

* a volume header with a zero ID, which the C++ decoder leaves to the check of the geometry;
* a block header whose stored size is so large that 128 more wraps in 32 bits;
* a partition header with fewer than four descriptors, one of them of an unsupported kind.

`decoders_agree` says so exactly.
-/

set_option autoImplicit false

namespace TFDB

open ByteLib

/-! ## Agreement -/

/-- Both succeed with related values, or both fail with one class. -/
def Agree {α β : Type} (R : α → β → Prop) : Except Status α → Except Rust.Error β → Prop
  | .ok a, .ok b => R a b
  | .error e, .error e' => (e.code = .corrupt ∧ e'.kind = .corrupt) ∨
      (e.code = .unsupported ∧ e'.kind = .unsupported)
  | _, _ => False

section
variable {α β γ δ : Type} {R : α → β → Prop} {S : γ → δ → Prop}

theorem Agree.corrupt (s t : String) : Agree R (failWith .corrupt s) (Rust.Error.corrupt t) :=
  Or.inl ⟨rfl, rfl⟩

theorem Agree.unsupported (s t : String) :
    Agree R (failWith .unsupported s) (Rust.Error.unsupported t) := Or.inr ⟨rfl, rfl⟩

theorem Agree.bind {x : Except Status α} {y : Except Rust.Error β} {f : α → Except Status γ}
    {g : β → Except Rust.Error δ} (h : Agree R x y) (hfg : ∀ a b, R a b → Agree S (f a) (g b)) :
    Agree S (x.bind f) (y.bind g) := by
  cases x with
  | ok a =>
    cases y with
    | ok b => exact hfg a b h
    | error e => cases h
  | error e =>
    cases y with
    | ok b => cases h
    | error e' => exact h

theorem Agree.ite {p q : Prop} [Decidable p] [Decidable q] {x x' : Except Status α}
    {y y' : Except Rust.Error β} (hpq : p ↔ q) (ht : p → Agree R x y) (hf : ¬ p → Agree R x' y') :
    Agree R (if p then x else x') (if q then y else y') := by
  by_cases hp : p
  · rw [if_pos hp, if_pos (hpq.mp hp)]
    exact ht hp
  · rw [if_neg hp, if_neg (fun hq => hp (hpq.mpr hq))]
    exact hf hp

/-- Two checks of one decoder and one check of the other. -/
theorem Agree.corrupt_or {p p' q : Prop} [Decidable p] [Decidable p'] [Decidable q] {s t u : String}
    {x : Except Status α} {y : Except Rust.Error β} (hq : p ∨ p' ↔ q)
    (h : ¬ p → ¬ p' → Agree R x y) :
    Agree R (if p then failWith .corrupt s else if p' then failWith .corrupt t else x)
      (if q then Rust.Error.corrupt u else y) := by
  by_cases hp : p
  · rw [if_pos hp, if_pos (hq.mp (Or.inl hp))]
    exact .corrupt _ _
  rw [if_neg hp]
  refine .ite ?_ (fun _ => .corrupt _ _) (h hp)
  rw [← hq]
  exact ⟨Or.inr, fun h => h.resolve_left hp⟩

/-- Loops whose turns agree agree. -/
theorem Agree.foldlM {ι : Type} {f : α → ι → Except Status α} {g : β → ι → Except Rust.Error β}
    (hstep : ∀ a b i, R a b → Agree R (f a i) (g b i)) (l : List ι) {a : α} {b : β} (h : R a b) :
    Agree R (l.foldlM f a) (l.foldlM g b) := by
  induction l generalizing a b with
  | nil => exact h
  | cons i l ih =>
    rw [List.foldlM_cons, List.foldlM_cons]
    exact (hstep a b i h).bind fun a' b' h' => ih h'

end

theorem Agree.mono {α β : Type} {R S : α → β → Prop} {x : Except Status α} {y : Except Rust.Error β}
    (h : Agree R x y) (hRS : ∀ a b, R a b → S a b) : Agree S x y := by
  cases x <;> cases y
  · exact h
  · cases h
  · cases h
  · exact hRS _ _ h

/-! ## Common checks -/

theorem reservedZero_eq (bs : Bytes) (o k : Nat) (what : String) :
    Rust.reservedZero bs o (o + k) what =
      if allZero bs o k then .ok ()
      else Rust.Error.corrupt (what ++ " reserved bytes are nonzero") := by
  have hany : (slice bs o k).any (· != 0) = ! allZero bs o k := by
    rw [allZero, List.not_all_eq_any_not]
    rfl
  rw [Rust.reservedZero, Nat.add_sub_cancel_left, hany]
  cases allZero bs o k <;> rfl

theorem agree_common {bs magic : Bytes} {n c : Nat} (hl : bs.length = n) (hn : 8 ≤ n) (hc : c + 4 ≤ n) :
    Agree (fun _ b => b = bs) (commonCheck bs magic n c) (Rust.common bs magic n c) := by
  have htake : bs.take n = bs := by
    rw [← hl]
    exact List.take_length
  have hmagic : ¬ magicIs bs magic = true ↔ bs.take 8 ≠ magic := by
    have h8 : 8 ≤ bs.length := by omega
    simp [magicIs, slice, h8]
  have hlen : ¬ bs.length < n := by omega
  unfold commonCheck Rust.common
  simp only [if_neg hlen, htake]
  by_cases h1 : bs.take 8 ≠ magic
  · rw [if_pos h1, if_pos (hmagic.mpr h1)]
    exact .corrupt _ _
  rw [if_neg h1, if_neg (fun h => h1 (hmagic.mp h))]
  by_cases h2 : get16 bs 8 ≠ 1
  · have h2' : get16 bs 8 ≠ formatMajor := h2
    rw [if_pos h2, if_pos h2']
    exact .unsupported _ _
  have h2' : ¬ get16 bs 8 ≠ formatMajor := h2
  rw [if_neg h2, if_neg h2']
  by_cases h3 : get16 bs 10 > 0
  · have h3' : get16 bs 10 > formatMinor := h3
    rw [if_pos h3, if_pos h3']
    exact .unsupported _ _
  have h3' : ¬ get16 bs 10 > formatMinor := h3
  rw [if_neg h3, if_neg h3']
  by_cases h4 : (get32 bs 12).toNat ≠ n
  · rw [if_pos h4, if_pos (Or.inl h4)]
    exact .corrupt _ _
  rw [if_neg h4]
  rw [not_not] at h4
  rw [h4, if_neg (by omega), if_neg (by omega), htake, Rust.crc32c_eq, crc32cWithZeroedField_eq]
  split
  · exact .corrupt _ _
  · rfl

/-- Decoders that agree behind the common checks agree. -/
theorem agree_behind {α β : Type} {R : α → β → Prop} {bs magic : Bytes} {n c : Nat}
    (hl : bs.length = n) (hn : 8 ≤ n) (hc : c + 4 ≤ n) {f : Except Status α}
    {g : Bytes → Except Rust.Error β} {P : Prop}
    (h : commonCheck bs magic n c = .ok () → (Agree R f (g bs) ↔ ¬ P)) :
    Agree R ((commonCheck bs magic n c).bind fun _ => f) ((Rust.common bs magic n c).bind g) ↔
      ¬ (commonCheck bs magic n c = .ok () ∧ P) := by
  have hag : Agree (fun _ b => b = bs) (commonCheck bs magic n c) (Rust.common bs magic n c) :=
    agree_common hl hn hc
  cases hx : commonCheck bs magic n c with
  | ok u =>
    cases hy : Rust.common bs magic n c with
    | ok b =>
      rw [hx, hy] at hag
      have hag : b = bs := hag
      subst hag
      have h' := h hx
      simpa [Except.bind] using h'
    | error e =>
      rw [hx, hy] at hag
      cases hag
  | error e =>
    cases hy : Rust.common bs magic n c with
    | ok b =>
      rw [hx, hy] at hag
      cases hag
    | error e' =>
      rw [hx, hy] at hag
      exact ⟨fun _ hx => (by cases hx.1), fun _ => hag⟩

/-! ## Volume headers -/

/-- A volume header that passes every check of the C++ decoder and has a zero ID. -/
def ZeroVolumeId (bs : Bytes) : Prop :=
  commonCheck bs volumeMagic volumeHeaderEncodedSize 72 = .ok () ∧ allZero bs 76 180 = true ∧
    ¬ (get32 bs 48 < 2 ∨ get64 bs 40 = 0 ∨ get32 bs 56 = 0 ∨ get32 bs 60 = 0) ∧
    get64 bs 16 = 0 ∧ get64 bs 24 = 0

theorem agree_volumeHeader {bs : Bytes} (hl : bs.length = volumeHeaderEncodedSize) :
    Agree Eq (decodeVolumeHeader bs) (Rust.decodeVolumeHeader bs) ↔ ¬ ZeroVolumeId bs := by
  refine agree_behind hl (by decide) (by decide) fun _ => ?_
  have hres := reservedZero_eq bs 76 180 "volume header"
  show Agree Eq _ ((Rust.reservedZero bs 76 (76 + 180) "volume header").bind _) ↔ _
  rw [hres]
  show Agree Eq (if ¬ allZero bs 76 180 = true then _ else _) _ ↔ _
  cases hz : allZero bs 76 180 with
  | false => exact ⟨fun _ hx => (by cases hx.1), fun _ => .corrupt _ _⟩
  | true =>
    simp only [if_true, not_true_eq_false, if_false, Except.bind, true_and]
    by_cases hid : get64 bs 16 = 0 ∧ get64 bs 24 = 0
    · rw [if_pos hid]
      split
      · rename_i hgeo
        exact ⟨fun _ hx => hx.1 hgeo, fun _ => .corrupt _ _⟩
      · rename_i hgeo
        exact ⟨fun hx => (by cases hx), fun hx => absurd ⟨hgeo, hid⟩ hx⟩
    · rw [if_neg hid]
      split
      · exact ⟨fun _ hx => hid hx.2, fun _ => .corrupt _ _⟩
      · exact ⟨fun _ hx => hid hx.2, fun _ => rfl⟩

/-! ## Block headers, index entries and footers -/

/-- The fields of a block header. -/
def blockFields (bs : Bytes) : BlockHeader :=
  { generation := get64 bs 16, sequence := get32 bs 24, flags := get32 bs 28
    recordCount := get32 bs 32, storedSize := get32 bs 36, rawSize := get32 bs 40
    frameSpan := get32 bs 44, minTimeNs := geti64 bs 48, maxTimeNs := geti64 bs 56
    compression := ⟨get16 bs 64⟩, compressionVersion := get16 bs 66
    payloadCrc := get32 bs 68, slot := get32 bs 76
    volumeIdLow := get64 bs 80, volumeIdHigh := get64 bs 88
    writerIdHigh := get64 bs 96, writerIdLow := get64 bs 104
    previousWriterIdHigh := get64 bs 112, previousWriterIdLow := get64 bs 120 }

theorem decodeBlockHeader_fields {bs : Bytes} {b : BlockHeader} (h : decodeBlockHeader bs = .ok b) :
    commonCheck bs blockMagic blockHeaderEncodedSize 72 = .ok () ∧ blockFields bs = b ∧
      b.inBounds = true := by
  obtain ⟨u, hcommon, h⟩ := bind_ok_inv h
  simp only at h
  split at h
  · cases h
  · rename_i hin
    cases h
    exact ⟨hcommon, rfl, not_not.mp hin⟩

/-- A block header that the C++ decoder accepts although its frame is longer than 32 bits can say. -/
def WrappedFrame (bs : Bytes) : Prop :=
  commonCheck bs blockMagic blockHeaderEncodedSize 72 = .ok () ∧
    (blockFields bs).inBounds = true ∧ 2 ^ 32 ≤ blockHeaderEncodedSize + (get32 bs 36).toNat

/-- A 32-bit span covers a frame exactly when it does not wrap and covers its machine sum. -/
theorem not_lt_frame_iff (stored span : UInt32) :
    ¬ span.toNat < blockHeaderEncodedSize + stored.toNat ↔
      ¬ span < 128 + stored ∧ blockHeaderEncodedSize + stored.toNat < 2 ^ 32 := by
  have hspan := span.toNat_lt
  have hstored := stored.toNat_lt
  have hsum : (128 + stored).toNat = (128 + stored.toNat) % 2 ^ 32 := UInt32.toNat_add ..
  rw [UInt32.lt_iff_toNat_lt, hsum]
  show ¬ span.toNat < 128 + stored.toNat ↔ _ ∧ 128 + stored.toNat < 2 ^ 32
  omega

/-- The bounds agree while the sum fits; the Rust reader refuses what does not. -/
theorem inBounds_iff (b : BlockHeader) :
    Rust.blockInBounds b = true ↔
      b.inBounds = true ∧ blockHeaderEncodedSize + b.storedSize.toNat < 2 ^ 32 := by
  have hframe := not_lt_frame_iff b.storedSize b.frameSpan
  simp only [Rust.blockInBounds, BlockHeader.inBounds, Bool.not_eq_true', Bool.or_eq_false_iff,
    decide_eq_false_iff_not]
  constructor
  · rintro ⟨h1, h2⟩
    exact ⟨⟨h1, (hframe.mp h2).1⟩, (hframe.mp h2).2⟩
  · rintro ⟨⟨h1, h2⟩, h3⟩
    exact ⟨h1, hframe.mpr ⟨h2, h3⟩⟩

theorem agree_blockHeader {bs : Bytes} (hl : bs.length = blockHeaderEncodedSize) :
    Agree Eq (decodeBlockHeader bs) (Rust.decodeBlockHeader bs) ↔ ¬ WrappedFrame bs := by
  refine agree_behind hl (by decide) (by decide) fun _ => ?_
  have hiff := inBounds_iff (blockFields bs)
  have hstored : (blockFields bs).storedSize = get32 bs 36 := rfl
  rw [hstored] at hiff
  show Agree Eq (if ¬ (blockFields bs).inBounds = true then _ else .ok (blockFields bs))
    (if ¬ Rust.blockInBounds (blockFields bs) = true then _ else .ok (blockFields bs)) ↔ _
  by_cases hin : (blockFields bs).inBounds = true
  · rw [if_neg (not_not.mpr hin)]
    by_cases hfit : blockHeaderEncodedSize + (get32 bs 36).toNat < 2 ^ 32
    · rw [if_neg (not_not.mpr (hiff.mpr ⟨hin, hfit⟩))]
      exact ⟨fun _ hx => Nat.not_le.mpr hfit hx.2, fun _ => rfl⟩
    · rw [if_pos fun h => hfit (hiff.mp h).2]
      exact ⟨fun hx => (by cases hx), fun hx => absurd ⟨hin, Nat.not_lt.mp hfit⟩ hx⟩
  · rw [if_pos hin, if_pos fun h => hin (hiff.mp h).1]
    exact ⟨fun _ hx => hin hx.1, fun _ => .corrupt _ _⟩

theorem agree_indexEntry (bs : Bytes) : Agree Eq (decodeIndexEntry bs) (Rust.decodeIndexEntry bs) := by
  unfold decodeIndexEntry Rust.decodeIndexEntry
  split
  · exact .corrupt _ _
  · simp only [IndexEntry.inBounds, Bool.not_eq_true', Bool.not_eq_false, Bool.or_eq_true,
      decide_eq_true_eq, beq_iff_eq, or_assoc]
    split
    · exact .corrupt _ _
    · rfl

theorem agree_footer {bs : Bytes} (hl : bs.length = partitionFooterEncodedSize) :
    Agree Eq (decodePartitionFooter bs) (Rust.decodeFooter bs) := by
  refine (agree_common hl (by decide) (by decide)).bind fun _ b hb => ?_
  subst hb
  show Agree Eq _ ((Rust.reservedZero b 68 (68 + 4) "partition footer").bind fun _ =>
    (Rust.reservedZero b 104 (104 + 152) "partition footer").bind _)
  rw [reservedZero_eq, reservedZero_eq]
  have hz2 : allZero b 104 (partitionFooterEncodedSize - 104) = allZero b 104 152 := rfl
  rw [hz2]
  cases allZero b 68 4 with
  | false =>
    rw [if_pos (Or.inl Bool.false_ne_true)]
    exact .corrupt _ _
  | true =>
    cases allZero b 104 152 with
    | false =>
      rw [if_pos (Or.inr Bool.false_ne_true)]
      exact .corrupt _ _
    | true =>
      rw [if_neg (by simp)]
      simp only [if_true, Except.bind]
      have hsize : get32 b 52 ≠ 48 ↔ (get32 b 52).toNat ≠ indexEntryEncodedSize :=
        not_congr (UInt32.toNat_inj (b := 48)).symm
      by_cases h1 : get32 b 52 ≠ 48
      · rw [if_pos h1, if_pos (hsize.mp h1)]
        exact .unsupported _ _
      rw [if_neg h1, if_neg fun h => h1 (hsize.mpr h)]
      split
      · exact .corrupt _ _
      · rfl

/-! ## Partition headers -/

/-- The locals of the two loops over the feature directory. -/
structure SameScan (start : PartitionOptions) (acc : FeatureScan) (d : Rust.Directory) : Prop where
  features : acc.features = d.features
  ranges : acc.configRanges.map (fun r => (r.1.toNat, r.2.toNat)) = d.ranges
  compression : acc.compression = d.compression.isSome
  compressionId : ∀ p ∈ d.compression, acc.options.compression.value = p.1 ∧
    acc.options.compressionVersion = p.2
  timeIndex : acc.timeIndex = d.timeIndex
  recordProfile : acc.recordProfile = d.recordProfile.isSome
  recordFormat : ∀ p ∈ d.recordProfile, acc.options.recordFormatId = p.1 ∧
    acc.options.recordFormatVersion = p.2
  integrity : acc.integrity = d.integrity
  backward : acc.options.allowedBackwardSkewNs = start.allowedBackwardSkewNs
  forward : acc.options.allowedForwardStepNs = start.allowedForwardStepNs
  domain : acc.options.timeDomainId = start.timeDomainId

theorem agree_configRange (f : FeatureDescriptor) {ranges : List (UInt32 × UInt32)}
    {ranges' : List (Nat × Nat)}
    (h : ranges.map (fun r => (r.1.toNat, r.2.toNat)) = ranges') :
    Agree (fun r r' => r.map (fun r => (r.1.toNat, r.2.toNat)) = r' ∧
        (f.configLength = 0 → f.configOffset = 0))
      (checkConfigRange f ranges) (Rust.configRange f ranges') := by
  have hoff := f.configOffset.toNat_lt
  have hlen := f.configLength.toNat_lt
  unfold checkConfigRange Rust.configRange
  by_cases hzero : f.configLength = 0
  · rw [if_pos hzero, if_pos hzero]
    by_cases h0 : f.configOffset ≠ 0
    · rw [if_pos h0, if_pos h0]
      exact .corrupt _ _
    · rw [if_neg h0, if_neg h0]
      exact ⟨h, fun _ => not_not.mp h0⟩
  rw [if_neg hzero, if_neg hzero]
  have hout : (f.configOffset < 512 ∨ f.configOffset > 528 ∨ f.configLength > 528 - f.configOffset) ↔
      (f.configOffset.toNat < 512 ∨ f.configOffset.toNat + f.configLength.toNat > 512 + 16) := by
    have hsub : ¬ f.configOffset.toNat > 528 →
        (528 - f.configOffset).toNat = 528 - f.configOffset.toNat := fun hle =>
      UInt32.toNat_sub_of_le _ _ (UInt32.le_iff_toNat_le.mpr (Nat.not_lt.mp hle))
    have h512 : f.configOffset < 512 ↔ f.configOffset.toNat < 512 := UInt32.lt_iff_toNat_lt
    have h528 : f.configOffset > 528 ↔ f.configOffset.toNat > 528 := UInt32.lt_iff_toNat_lt
    have hrest : f.configLength > 528 - f.configOffset ↔
      f.configLength.toNat > (528 - f.configOffset).toNat := UInt32.lt_iff_toNat_lt
    rw [h512, h528, hrest]
    omega
  by_cases hrange : f.configOffset < 512 ∨ f.configOffset > 528 ∨
      f.configLength > 528 - f.configOffset
  · rw [if_pos hrange, if_pos (hout.mp hrange)]
    exact .corrupt _ _
  have hfit : ¬ (f.configOffset.toNat < 512 ∨
      f.configOffset.toNat + f.configLength.toNat > 512 + 16) := fun hx => hrange (hout.mpr hx)
  rw [if_neg hrange, if_neg hfit]
  have hend : (f.configOffset + f.configLength).toNat =
      f.configOffset.toNat + f.configLength.toNat := by
    rw [UInt32.toNat_add]
    omega
  have hany : (ranges.any fun r => decide (f.configOffset < r.2) &&
        decide (r.1 < f.configOffset + f.configLength)) =
      ranges'.any fun r => decide (f.configOffset.toNat < r.2) &&
        decide (r.1 < f.configOffset.toNat + f.configLength.toNat) := by
    rw [← h, List.any_map]
    refine congrArg ranges.any (funext fun r => ?_)
    simp only [Function.comp, UInt32.lt_iff_toNat_lt, hend]
  simp only [hany]
  split
  · exact .corrupt _ _
  · refine ⟨?_, fun hx => absurd hx hzero⟩
    rw [List.map_append, h, List.map_singleton, hend]

theorem agree_matchKind {start : PartitionOptions} {bs : Bytes} {f : FeatureDescriptor}
    {acc : FeatureScan} {d : Rust.Directory} (h : SameScan start acc d)
    (hcfg : f.configLength = 0 → f.configOffset = 0) :
    Agree (SameScan start) (decodeFeatureKind bs f acc) (Rust.matchKind bs f d) := by
  have hreq : ¬ Rust.required f = true ↔ f.flags &&& featureRequired = 0 := by
    simp [Rust.required]
  have hcomp : acc.compression = true ↔ d.compression.isSome = true := by rw [h.compression]
  have htime : acc.timeIndex = true ↔ d.timeIndex = true := by rw [h.timeIndex]
  have hprof : acc.recordProfile = true ↔ d.recordProfile.isSome = true := by rw [h.recordProfile]
  have hint : acc.integrity = true ↔ d.integrity = true := by rw [h.integrity]
  -- an empty configuration has no offset, which the Rust decoder does not look at again
  have hoff (P : Prop) : f.configOffset ≠ 0 ∨ f.configLength ≠ 0 ∨ P ↔ f.configLength ≠ 0 ∨ P :=
    ⟨fun h => h.elim (fun h0 => Or.inl (mt hcfg h0)) id, Or.inr⟩
  unfold decodeFeatureKind Rust.matchKind
  refine .ite Iff.rfl (fun _ => ?_) fun _ => ?_
  · refine .corrupt_or (by rw [hcomp, hreq, hoff]) fun _ _ => ?_
    exact { h with
      compression := rfl
      compressionId := by
        rintro p ⟨⟩
        exact ⟨rfl, rfl⟩ }
  refine .ite Iff.rfl (fun _ => ?_) fun _ => ?_
  · refine .ite htime (fun _ => .corrupt _ _) fun _ => ?_
    refine .ite (by rw [hreq, hoff]) (fun _ => .corrupt _ _) fun _ => ?_
    refine .ite Iff.rfl (fun _ => .unsupported _ _) fun _ => ?_
    exact { h with timeIndex := rfl }
  refine .ite Iff.rfl (fun _ => ?_) fun _ => ?_
  · refine .corrupt_or (by rw [hprof]) fun _ hgood => ?_
    push Not at hgood
    exact { h with
      recordProfile := rfl
      recordFormat := by
        rintro p ⟨⟩
        exact ⟨by rw [hgood.2.2.1]; rfl, rfl⟩ }
  refine .ite Iff.rfl (fun _ => ?_) fun _ => ?_
  · refine .corrupt_or (by rw [hint, hreq, hoff]) fun _ _ => ?_
    refine .ite Iff.rfl (fun _ => .unsupported _ _) fun _ => ?_
    exact { h with integrity := rfl }
  exact .ite (by simp [Rust.required]) (fun _ => .unsupported _ _) fun _ => h

theorem agree_nextFeature {start : PartitionOptions} {bs : Bytes} (acc : FeatureScan)
    (d : Rust.Directory) (i : Nat) (h : SameScan start acc d) :
    Agree (SameScan start) (decodeFeature bs acc i) (Rust.nextFeature bs d i) := by
  unfold decodeFeature Rust.nextFeature
  have hz1 := reservedZero_eq bs (128 + i * featureDescriptorSize + 10) 2 "feature descriptor"
  have hz2 := reservedZero_eq bs (128 + i * featureDescriptorSize + 20) 4 "feature descriptor"
  simp only [Nat.add_assoc] at hz1 hz2 ⊢
  simp only [hz1, hz2, bind]
  generalize decodeDescriptor bs (128 + i * featureDescriptorSize) = f
  cases allZero bs (128 + (i * featureDescriptorSize + 10)) 2 with
  | false =>
    rw [if_pos (by simp)]
    exact .corrupt _ _
  | true =>
    cases allZero bs (128 + (i * featureDescriptorSize + 20)) 4 with
    | false =>
      rw [if_pos (by simp)]
      exact .corrupt _ _
    | true =>
      refine .ite (by simp) (fun _ => .corrupt _ _) fun _ => ?_
      refine (agree_configRange f h.ranges).bind fun r r' hr => ?_
      have hnext : SameScan start { acc with configRanges := r } { d with ranges := r' } :=
        { h with ranges := hr.1 }
      refine (agree_matchKind hnext hr.2).bind fun a b hab => ?_
      exact { hab with features := by rw [hab.features] }

/-! ### Short directories -/

/-- How many of the four core features have been met. -/
def FeatureScan.cores (acc : FeatureScan) : Nat :=
  acc.compression.toNat + acc.timeIndex.toNat + acc.recordProfile.toNat + acc.integrity.toNat

theorem decodeFeatureKind_cores {bs : Bytes} {f : FeatureDescriptor} {acc acc' : FeatureScan}
    (h : decodeFeatureKind bs f acc = .ok acc') : acc'.cores ≤ acc.cores + 1 := by
  unfold decodeFeatureKind at h
  have hcore (b : Bool) : true.toNat ≤ b.toNat + 1 := by cases b <;> decide
  split_ifs at h <;> cases h
  · have := hcore acc.compression
    simp only [FeatureScan.cores]
    omega
  · have := hcore acc.timeIndex
    simp only [FeatureScan.cores]
    omega
  · have := hcore acc.recordProfile
    simp only [FeatureScan.cores]
    omega
  · have := hcore acc.integrity
    simp only [FeatureScan.cores]
    omega
  · omega

theorem decodeFeature_cores {bs : Bytes} {acc acc' : FeatureScan} {i : Nat}
    (h : decodeFeature bs acc i = .ok acc') : acc'.cores ≤ acc.cores + 1 := by
  simp only [decodeFeature] at h
  split at h
  · cases h
  · obtain ⟨ranges, -, h⟩ := bind_ok_inv h
    obtain ⟨a, hkind, h⟩ := bind_ok_inv h
    have hcores := decodeFeatureKind_cores hkind
    cases h
    exact hcores

theorem decodeFeatures_cores {bs : Bytes} {acc acc' : FeatureScan} {n : Nat}
    (h : (List.range n).foldlM (decodeFeature bs) acc = .ok acc') : acc'.cores ≤ acc.cores + n := by
  induction n generalizing acc' with
  | zero =>
    cases h
    exact Nat.le_refl _
  | succ n ih =>
    rw [List.range_succ, List.foldlM_append] at h
    obtain ⟨b, hb, h⟩ := bind_ok_inv h
    have hstep : decodeFeature bs b n = .ok acc' := by
      rw [List.foldlM_cons] at h
      obtain ⟨c, hc, h⟩ := bind_ok_inv h
      cases h
      exact hc
    have h1 := ih hb
    have h2 := decodeFeature_cores hstep
    omega

/-- A descriptor that is well formed and names an algorithm or a kind the decoder does not know. -/
def UnsupportedKind (acc : FeatureScan) (f : FeatureDescriptor) : Prop :=
  (f.kind = featureTimeIndex ∧ acc.timeIndex = false ∧ f.flags &&& featureRequired ≠ 0 ∧
    f.configOffset = 0 ∧ f.configLength = 0 ∧ f.regionLength ≠ 0 ∧
    (f.algorithm ≠ timeIndexMinMax ∨ f.version ≠ 1)) ∨
  (f.kind = featureIntegrity ∧ acc.integrity = false ∧ f.flags &&& featureRequired ≠ 0 ∧
    f.configOffset = 0 ∧ f.configLength = 0 ∧ f.regionOffset = 0 ∧ f.regionLength = 0 ∧
    (f.algorithm ≠ integrityCrc32c ∨ f.version ≠ 1)) ∨
  (f.kind ∉ [featureCompression, featureTimeIndex, featureRecordProfile, featureIntegrity] ∧
    f.flags &&& featureRequired ≠ 0)

/-- Refused as unsupported. -/
def FailsUnsupported {α : Type} (x : Except Status α) : Prop :=
  ∃ e, x = .error e ∧ e.code = .unsupported

section
variable {α β : Type} {x y : Except Status α}

@[simp]
theorem failsUnsupported_failWith {c : StatusCode} {s : String} :
    FailsUnsupported (failWith c s : Except Status α) ↔ c = .unsupported := by
  constructor
  · rintro ⟨e, he, hcode⟩
    cases he
    exact hcode
  · rintro rfl
    exact ⟨_, rfl, rfl⟩

@[simp]
theorem failsUnsupported_ok {a : α} : ¬ FailsUnsupported (.ok a : Except Status α) := by
  rintro ⟨e, he, -⟩
  cases he

theorem failsUnsupported_ite {p : Prop} [Decidable p] :
    FailsUnsupported (if p then x else y) ↔
      (p ∧ FailsUnsupported x) ∨ (¬ p ∧ FailsUnsupported y) := by
  by_cases hp : p <;> simp [hp]

theorem failsUnsupported_bind {f : α → Except Status β} :
    FailsUnsupported (x.bind f) ↔ FailsUnsupported x ∨ ∃ a, x = .ok a ∧ FailsUnsupported (f a) := by
  cases x with
  | error e =>
    refine ⟨fun ⟨e', he, hcode⟩ => Or.inl ?_, fun h => h.elim (fun ⟨e', he, hcode⟩ => ?_) ?_⟩
    · cases he
      exact ⟨e, rfl, hcode⟩
    · cases he
      exact ⟨e, rfl, hcode⟩
    · rintro ⟨a, ha, -⟩
      cases ha
  | ok a =>
    refine ⟨fun h => Or.inr ⟨a, rfl, h⟩, fun h => h.elim (fun h => absurd h failsUnsupported_ok) ?_⟩
    rintro ⟨a', ha, h⟩
    cases ha
    exact h

end

/-- A class of error that a loop ends with is that of its first turn that fails. -/
theorem foldlM_range_unsupported {α : Type} {f : α → Nat → Except Status α} {a : α} {n : Nat} :
    FailsUnsupported ((List.range n).foldlM f a) ↔
      ∃ i < n, ∃ b, (List.range i).foldlM f a = .ok b ∧ FailsUnsupported (f b i) := by
  induction n with
  | zero =>
    constructor
    · rintro ⟨e, he, -⟩
      cases he
    · rintro ⟨i, hi, -⟩
      omega
  | succ n ih =>
    have hsucc : (List.range (n + 1)).foldlM f a = ((List.range n).foldlM f a).bind (f · n) := by
      rw [List.range_succ, List.foldlM_append]
      cases (List.range n).foldlM f a with
      | error e => rfl
      | ok b => exact bind_pure (f b n)
    rw [hsucc]
    cases hx : (List.range n).foldlM f a with
    | error e =>
      constructor
      · intro h
        rw [hx] at ih
        obtain ⟨i, hi, h⟩ := ih.mp h
        exact ⟨i, by omega, h⟩
      · rintro ⟨i, hi, b, hb, h⟩
        have hlt : i < n := by
          rcases Nat.lt_succ_iff_lt_or_eq.mp hi with hlt | rfl
          · exact hlt
          · rw [hx] at hb
            cases hb
        have h' := ih.mpr ⟨i, hlt, b, hb, h⟩
        rw [hx] at h'
        exact h'
    | ok b =>
      constructor
      · intro h
        exact ⟨n, by omega, b, hx, h⟩
      · rintro ⟨i, hi, c, hc, h⟩
        rcases Nat.lt_succ_iff_lt_or_eq.mp hi with hlt | rfl
        · obtain ⟨e, he, -⟩ := ih.mpr ⟨i, hlt, c, hc, h⟩
          rw [hx] at he
          cases he
        · rw [hx] at hc
          cases hc
          exact h

theorem decodeFeatureKind_unsupported {bs : Bytes} {f : FeatureDescriptor} {acc : FeatureScan} :
    FailsUnsupported (decodeFeatureKind bs f acc) ↔ UnsupportedKind acc f := by
  have h12 : featureCompression ≠ featureTimeIndex := by decide
  have h14 : featureCompression ≠ featureIntegrity := by decide
  have h24 : featureTimeIndex ≠ featureIntegrity := by decide
  have h34 : featureRecordProfile ≠ featureIntegrity := by decide
  have h32 : featureRecordProfile ≠ featureTimeIndex := by decide
  simp only [decodeFeatureKind, UnsupportedKind, failsUnsupported_ite, failsUnsupported_failWith,
    failsUnsupported_ok, List.mem_cons, List.not_mem_nil, or_false]
  grind

/-- The descriptor passes the checks of its layout and is of an unsupported kind. -/
def UnsupportedFeature (bs : Bytes) (acc : FeatureScan) (i : Nat) : Prop :=
  let d := 128 + i * featureDescriptorSize
  let f := decodeDescriptor bs d
  f.flags &&& ~~~featureRequired = 0 ∧ allZero bs (d + 10) 2 = true ∧ allZero bs (d + 20) 4 = true ∧
    (∃ ranges, checkConfigRange f acc.configRanges = .ok ranges) ∧ UnsupportedKind acc f

theorem checkConfigRange_not_unsupported {f : FeatureDescriptor} {r : List (UInt32 × UInt32)} :
    ¬ FailsUnsupported (checkConfigRange f r) := by
  simp only [checkConfigRange, failsUnsupported_ite, failsUnsupported_failWith, failsUnsupported_ok]
  simp

theorem decodeFeature_unsupported {bs : Bytes} {acc : FeatureScan} {i : Nat} :
    FailsUnsupported (decodeFeature bs acc i) ↔ UnsupportedFeature bs acc i := by
  simp only [decodeFeature, UnsupportedFeature, bind, failsUnsupported_ite,
    failsUnsupported_failWith, failsUnsupported_bind, failsUnsupported_ok,
    decodeFeatureKind_unsupported, checkConfigRange_not_unsupported]
  generalize decodeDescriptor bs (128 + i * featureDescriptorSize) = f
  -- the ranges are no part of what makes a kind unsupported
  have hkind (r : List (UInt32 × UInt32)) :
      UnsupportedKind { acc with configRanges := r } f ↔ UnsupportedKind acc f := Iff.rfl
  simp only [hkind]
  constructor
  · rintro (⟨-, h⟩ | ⟨hgood, h | h⟩)
    · cases h
    · cases h
    · push Not at hgood
      obtain ⟨r, hr, h⟩ := h
      exact ⟨hgood.1, hgood.2.1, hgood.2.2, ⟨r, hr⟩, by simpa using h⟩
  · rintro ⟨h1, h2, h3, ⟨r, hr⟩, h⟩
    exact Or.inr ⟨by simp [h1, h2, h3], Or.inr ⟨r, hr, Or.inl h⟩⟩

/-- The options of a partition header before its directory is read. -/
def startOptions (bs : Bytes) : PartitionOptions :=
  { allowedBackwardSkewNs := geti64 bs 64, allowedForwardStepNs := geti64 bs 72
    timeDomainId := get64 bs 80 }

/-- The fixed fields of the directory. -/
def DirectoryOk (bs : Bytes) : Prop :=
  (get16 bs 88).toNat ≤ 8 ∧ (get16 bs 90).toNat = featureDescriptorSize ∧ get32 bs 92 = 128 ∧
    get32 bs 96 = 512 ∧ get32 bs 100 = 16

/-- A partition header with fewer than four descriptors, the first bad one of which is of an
unsupported kind. -/
def ShortUnsupported (bs : Bytes) : Prop :=
  commonCheck bs partitionMagic partitionHeaderEncodedSize 104 = .ok () ∧
    allZero bs 44 4 = true ∧ allZero bs 108 20 = true ∧ DirectoryOk bs ∧ (get16 bs 88).toNat < 4 ∧
    ∃ i < (get16 bs 88).toNat, ∃ acc,
      (List.range i).foldlM (decodeFeature bs) { options := startOptions bs } = .ok acc ∧
        UnsupportedFeature bs acc i

/-- One partition header in the two languages. -/
def SameHeader (h : PartitionHeader) (h' : Rust.PartitionHeader) : Prop :=
  h' =
    { volumeIdHigh := h.volumeIdHigh, volumeIdLow := h.volumeIdLow, generation := h.generation
      slot := h.slot, createdTimeNs := h.createdTimeNs, maxBlockPayload := h.maxBlockPayload
      persistenceQuantum := h.persistenceQuantum
      allowedBackwardSkewNs := h.options.allowedBackwardSkewNs
      allowedForwardStepNs := h.options.allowedForwardStepNs
      timeDomainId := h.options.timeDomainId, compressionId := h.options.compression.value
      compressionVersion := h.options.compressionVersion
      recordFormatId := h.options.recordFormatId
      recordFormatVersion := h.options.recordFormatVersion, features := h.features }

/-- What the C++ decoder does behind its loop. -/
def finishScan (bs : Bytes) (scan : FeatureScan) : Except Status PartitionHeader :=
  if ¬ scan.compression ∨ ¬ scan.timeIndex ∨ ¬ scan.integrity ∨ ¬ scan.recordProfile then
    failWith .corrupt "missing core feature"
  else if (scan.options.recordFormatId = 0) ≠ (scan.options.recordFormatVersion = 0) then
    failWith .corrupt "record profile ID/version mismatch"
  else
    .ok
      { volumeIdHigh := get64 bs 16, volumeIdLow := get64 bs 24
        generation := get64 bs 32, slot := get32 bs 40
        createdTimeNs := geti64 bs 48, maxBlockPayload := get32 bs 56
        persistenceQuantum := get32 bs 60, options := scan.options
        features := scan.features }

/-- What the Rust decoder does behind its loop. -/
def Rust.finishDirectory (bytes : Bytes) (d : Directory) : Except Error PartitionHeader :=
  match d.compression with
  | none => Error.corrupt "missing compression feature"
  | some (compressionId, compressionVersion) =>
    if ¬ d.timeIndex ∨ ¬ d.integrity then Error.corrupt "missing core partition feature"
    else
      match d.recordProfile with
      | none => Error.corrupt "missing record-profile feature"
      | some (recordFormatId, recordFormatVersion) =>
        if (recordFormatId = 0) ≠ (recordFormatVersion = 0) then
          Error.corrupt "record profile ID/version mismatch"
        else
          .ok
            { volumeIdHigh := get64 bytes 16, volumeIdLow := get64 bytes 24
              generation := get64 bytes 32, slot := get32 bytes 40
              createdTimeNs := geti64 bytes 48, maxBlockPayload := get32 bytes 56
              persistenceQuantum := get32 bytes 60, allowedBackwardSkewNs := geti64 bytes 64
              allowedForwardStepNs := geti64 bytes 72, timeDomainId := get64 bytes 80
              compressionId := compressionId, compressionVersion := compressionVersion
              recordFormatId := recordFormatId, recordFormatVersion := recordFormatVersion
              features := d.features }

theorem agree_finish {bs : Bytes} (acc : FeatureScan) (d : Rust.Directory)
    (h : SameScan (startOptions bs) acc d) :
    Agree SameHeader (finishScan bs acc) (Rust.finishDirectory bs d) := by
  unfold finishScan Rust.finishDirectory
  cases hc : d.compression with
  | none =>
    have hnone : ¬ acc.compression = true := by simp [h.compression, hc]
    rw [if_pos (Or.inl hnone)]
    exact .corrupt _ _
  | some p =>
    have hcomp : acc.compression = true := by simp [h.compression, hc]
    obtain ⟨hid, hver⟩ := h.compressionId p hc
    dsimp only
    by_cases hcore : ¬ d.timeIndex = true ∨ ¬ d.integrity = true
    · have hcore' : ¬ acc.timeIndex = true ∨ ¬ acc.integrity = true := by
        rw [h.timeIndex, h.integrity]
        exact hcore
      rw [if_pos hcore, if_pos (Or.inr (hcore'.imp_right Or.inl))]
      exact .corrupt _ _
    rw [if_neg hcore]
    cases hp : d.recordProfile with
    | none =>
      have hnone : ¬ acc.recordProfile = true := by simp [h.recordProfile, hp]
      rw [if_pos (Or.inr (Or.inr (Or.inr hnone)))]
      exact .corrupt _ _
    | some q =>
      have hprof : acc.recordProfile = true := by simp [h.recordProfile, hp]
      obtain ⟨hfid, hfver⟩ := h.recordFormat q hp
      push Not at hcore
      rw [if_neg (by simp [hcomp, hprof, h.timeIndex, h.integrity, hcore])]
      dsimp only
      rw [← hfid, ← hfver]
      refine .ite Iff.rfl (fun _ => .corrupt _ _) fun _ => ?_
      show SameHeader _ _
      simp only [SameHeader, hid, hver, h.features, h.backward, h.forward, h.domain, startOptions]

/-- Fewer than four descriptors hold no complete set of core features. -/
theorem finishScan_short {bs : Bytes} {acc : FeatureScan} (h : acc.cores < 4) :
    finishScan bs acc = failWith .corrupt "missing core feature" := by
  refine if_pos ?_
  by_contra hall
  push Not at hall
  obtain ⟨h1, h2, h3, h4⟩ := hall
  rw [FeatureScan.cores, h1, h2, h3, h4] at h
  exact absurd h (by decide)

theorem directory_iff (bs : Bytes) :
    ((get16 bs 88).toNat > 8 ∨ (get16 bs 90).toNat ≠ featureDescriptorSize ∨ get32 bs 92 ≠ 128 ∨
        get32 bs 96 ≠ 512 ∨ get32 bs 100 ≠ 16 ∨
        (get16 bs 88).toNat * (get16 bs 90).toNat >
          partitionHeaderEncodedSize - (get32 bs 92).toNat) ↔ ¬ DirectoryOk bs := by
  unfold DirectoryOk
  constructor
  · rintro h ⟨h1, h2, h3, h4, h5⟩
    rw [h2, h3] at h
    have hsize : (get16 bs 88).toNat * featureDescriptorSize ≤ 8 * featureDescriptorSize :=
      Nat.mul_le_mul_right _ h1
    have hroom : partitionHeaderEncodedSize - (128 : UInt32).toNat = 896 := rfl
    have hall : 8 * featureDescriptorSize = 320 := rfl
    rcases h with h | h | h | h | h | h
    · omega
    · exact h rfl
    · exact h rfl
    · exact h h4
    · exact h h5
    · omega
  · intro h
    by_contra hall
    push Not at hall
    exact h ⟨hall.1, hall.2.1, hall.2.2.1, hall.2.2.2.1, hall.2.2.2.2.1⟩

theorem rust_directory_iff (bs : Bytes) :
    ((get16 bs 88).toNat < 4 ∨ (get16 bs 88).toNat > 8 ∨
        (get16 bs 90).toNat ≠ featureDescriptorSize ∨ (get32 bs 92).toNat ≠ 128 ∨
        (get32 bs 96).toNat ≠ 512 ∨ (get32 bs 100).toNat ≠ 16 ∨
        (get32 bs 92).toNat + (get16 bs 88).toNat * (get16 bs 90).toNat > 448) ↔
      ¬ DirectoryOk bs ∨ (get16 bs 88).toNat < 4 := by
  have h92 : (get32 bs 92).toNat = 128 ↔ get32 bs 92 = 128 := UInt32.toNat_inj (b := 128)
  have h96 : (get32 bs 96).toNat = 512 ↔ get32 bs 96 = 512 := UInt32.toNat_inj (b := 512)
  have h100 : (get32 bs 100).toNat = 16 ↔ get32 bs 100 = 16 := UInt32.toNat_inj (b := 16)
  unfold DirectoryOk
  constructor
  · intro h
    by_contra hall
    push Not at hall
    obtain ⟨⟨h1, h2, h3, h4, h5⟩, h6⟩ := hall
    have hall : featureDescriptorSize = 40 := rfl
    rw [h2, h92.mpr h3, h96.mpr h4, h100.mpr h5, hall] at h
    omega
  · intro h
    by_contra hall
    push Not at hall
    obtain ⟨h1, h2, h3, h4, h5, h6, h7⟩ := hall
    rcases h with h | h
    · exact h ⟨h2, h3, h92.mp h4, h96.mp h5, h100.mp h6⟩
    · omega

/-- The Rust decoder refuses a short directory before it reads it; the C++ decoder reads it. -/
theorem agree_short {bs : Bytes} {n : Nat} {start : PartitionOptions} {d : Rust.Directory}
    {acc : FeatureScan} (hn : acc.cores + n < 4)
    (h : Agree (SameScan start) ((List.range n).foldlM (decodeFeature bs) acc)
      ((List.range n).foldlM (Rust.nextFeature bs) d)) (s : String) :
    Agree SameHeader (((List.range n).foldlM (decodeFeature bs) acc).bind (finishScan bs))
        (Rust.Error.corrupt s) ↔
      ¬ FailsUnsupported ((List.range n).foldlM (decodeFeature bs) acc) := by
  cases hx : (List.range n).foldlM (decodeFeature bs) acc with
  | ok acc' =>
    have hcores := decodeFeatures_cores hx
    have hshort : finishScan bs acc' = _ := finishScan_short (by omega)
    refine ⟨fun _ => failsUnsupported_ok, fun _ => ?_⟩
    show Agree SameHeader (finishScan bs acc') _
    rw [hshort]
    exact .corrupt _ _
  | error e =>
    constructor
    · rintro (⟨hcode, -⟩ | ⟨-, hkind⟩) ⟨e', he, hcode'⟩
      · cases he
        rw [hcode] at hcode'
        cases hcode'
      · cases hkind
    · intro hnot
      refine Or.inl ⟨?_, rfl⟩
      rw [hx] at h
      cases hy : (List.range n).foldlM (Rust.nextFeature bs) d with
      | ok b =>
        rw [hy] at h
        cases h
      | error e' =>
        rw [hy] at h
        rcases h with ⟨hcode, -⟩ | ⟨hcode, -⟩
        · exact hcode
        · exact absurd ⟨e, rfl, hcode⟩ hnot

theorem agree_partitionHeader {bs : Bytes} (hl : bs.length = partitionHeaderEncodedSize) :
    Agree SameHeader (decodePartitionHeader bs) (Rust.decodePartitionHeader bs) ↔
      ¬ ShortUnsupported bs := by
  refine agree_behind hl (by decide) (by decide) fun _ => ?_
  show Agree SameHeader _ ((Rust.reservedZero bs 44 (44 + 4) "partition header").bind fun _ =>
    (Rust.reservedZero bs 108 (108 + 20) "partition header").bind _) ↔ _
  rw [reservedZero_eq, reservedZero_eq]
  cases allZero bs 44 4 with
  | false =>
    rw [if_pos (Or.inl Bool.false_ne_true)]
    exact ⟨fun _ hx => (by cases hx.1), fun _ => .corrupt _ _⟩
  | true =>
  cases allZero bs 108 20 with
  | false =>
    rw [if_pos (Or.inr Bool.false_ne_true)]
    exact ⟨fun _ hx => (by cases hx.2.1), fun _ => .corrupt _ _⟩
  | true =>
  rw [if_neg (by simp)]
  show Agree SameHeader
    (if _ then _ else
      ((List.range (get16 bs 88).toNat).foldlM (decodeFeature bs)
        { options := startOptions bs }).bind (finishScan bs))
    (if _ then _ else
      ((List.range (get16 bs 88).toNat).foldlM (Rust.nextFeature bs) {}).bind
        (Rust.finishDirectory bs)) ↔ _
  have hstart : SameScan (startOptions bs) { options := startOptions bs } {} :=
    ⟨rfl, rfl, rfl, (fun _ h => nomatch h), rfl, rfl, (fun _ h => nomatch h), rfl, rfl, rfl, rfl⟩
  have hloop := Agree.foldlM (fun a b i h => @agree_nextFeature _ bs a b i h)
    (List.range (get16 bs 88).toNat) hstart
  by_cases hdir : DirectoryOk bs
  · rw [if_neg (fun h => (directory_iff bs).mp h hdir)]
    by_cases hfew : (get16 bs 88).toNat < 4
    · rw [if_pos ((rust_directory_iff bs).mpr (Or.inr hfew))]
      have hnone : FeatureScan.cores { options := startOptions bs } = 0 := rfl
      have hiff := agree_short (by omega) hloop "invalid partition feature directory"
      simp only [foldlM_range_unsupported, decodeFeature_unsupported] at hiff
      rw [Rust.Error.corrupt] at hiff ⊢
      rw [hiff]
      exact not_congr ⟨fun h => ⟨rfl, rfl, hdir, hfew, h⟩, fun h => h.2.2.2.2⟩
    · rw [if_neg (fun h => ((rust_directory_iff bs).mp h).elim (fun h => h hdir) hfew)]
      exact ⟨fun _ hx => hfew hx.2.2.2.1, fun _ => hloop.bind agree_finish⟩
  · rw [if_pos ((directory_iff bs).mpr hdir), if_pos ((rust_directory_iff bs).mpr (Or.inl hdir))]
    exact ⟨fun _ hx => hdir hx.2.2.1, fun _ => .corrupt _ _⟩

/-! ## All structures -/

/-- The decoders of every structure whose exact size the bytes have agree. -/
def DecodersAgree (bs : Bytes) : Prop :=
  (bs.length = volumeHeaderEncodedSize →
    Agree Eq (decodeVolumeHeader bs) (Rust.decodeVolumeHeader bs)) ∧
  (bs.length = partitionHeaderEncodedSize →
    Agree SameHeader (decodePartitionHeader bs) (Rust.decodePartitionHeader bs)) ∧
  (bs.length = blockHeaderEncodedSize →
    Agree Eq (decodeBlockHeader bs) (Rust.decodeBlockHeader bs)) ∧
  (bs.length = indexEntryEncodedSize → Agree Eq (decodeIndexEntry bs) (Rust.decodeIndexEntry bs)) ∧
  (bs.length = partitionFooterEncodedSize →
    Agree Eq (decodePartitionFooter bs) (Rust.decodeFooter bs))

theorem decoders_agree (bs : Bytes) :
    DecodersAgree bs ↔
      (bs.length = volumeHeaderEncodedSize → ¬ ZeroVolumeId bs) ∧
      (bs.length = partitionHeaderEncodedSize → ¬ ShortUnsupported bs) ∧
      (bs.length = blockHeaderEncodedSize → ¬ WrappedFrame bs) := by
  constructor
  · rintro ⟨hvolume, hpartition, hblock, -, -⟩
    exact ⟨fun hl => (agree_volumeHeader hl).mp (hvolume hl),
      fun hl => (agree_partitionHeader hl).mp (hpartition hl),
      fun hl => (agree_blockHeader hl).mp (hblock hl)⟩
  · rintro ⟨hvolume, hpartition, hblock⟩
    exact ⟨fun hl => (agree_volumeHeader hl).mpr (hvolume hl),
      fun hl => (agree_partitionHeader hl).mpr (hpartition hl),
      fun hl => (agree_blockHeader hl).mpr (hblock hl), fun _ => agree_indexEntry bs,
      fun hl => agree_footer hl⟩

/-- What the C++ decoder accepts with a frame that wraps, the Rust decoder refuses. -/
theorem disagree_of_wrapped {bs : Bytes} {b : BlockHeader} (hl : bs.length = blockHeaderEncodedSize)
    (hb : decodeBlockHeader bs = .ok b)
    (hw : 2 ^ 32 ≤ blockHeaderEncodedSize + b.storedSize.toNat) : ¬ DecodersAgree bs := by
  rintro ⟨-, -, hag, -, -⟩
  obtain ⟨hcommon, rfl, hin⟩ := decodeBlockHeader_fields hb
  exact (agree_blockHeader hl).mp (hag hl) ⟨hcommon, hin, hw⟩

/-- A frame of 127 bytes around a payload of 4 GiB. -/
def wrappedHeader : BlockHeader :=
  { generation := 1, recordCount := 1, storedSize := 0xffffffff, rawSize := 1, frameSpan := 127
    writerIdLow := 1 }

theorem wrapped_header_disagrees : ¬ DecodersAgree (encodeBlockHeader wrappedHeader) :=
  disagree_of_wrapped (encodeBlockHeader_length wrappedHeader) (decodeBlockHeader_encode (by decide))
    (by decide)

end TFDB
