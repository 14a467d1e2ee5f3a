import TFDB.Burst
import TFDB.Reader

/-!
# The feature directory

A partition header lists up to eight feature descriptors.  The decoder reads them in order, with
checks that look back at what came before; still the directory is a set.

* `decodeFeature_iff` — what one turn of the loop accepts, and what it remembers;
* `scan_iff` — the loop accepts exactly the directories whose descriptors are well formed, do not
  overlap and do not repeat a core kind;
* `decodePartitionHeader_iff` — so a header is accepted for what its descriptors are, not for their
  order;
* `directory_unordered` — permutations, foreign descriptors, and what an accepted header contains.
-/

set_option autoImplicit false

namespace TFDB

open ByteLib

/-! ## One descriptor -/

namespace FeatureDescriptor

/-- One of the four kinds every header has. -/
def IsCore (f : FeatureDescriptor) : Prop :=
  f.kind = featureCompression ∨ f.kind = featureTimeIndex ∨ f.kind = featureRecordProfile ∨
    f.kind = featureIntegrity

instance (f : FeatureDescriptor) : Decidable f.IsCore := by
  unfold IsCore
  infer_instance

/-- The configuration slices of two descriptors have no byte in common. -/
def Apart (f g : FeatureDescriptor) : Prop :=
  f.configLength = 0 ∨ g.configLength = 0 ∨
    f.configOffset.toNat + f.configLength.toNat ≤ g.configOffset.toNat ∨
    g.configOffset.toNat + g.configLength.toNat ≤ f.configOffset.toNat

/-- The configuration slice is empty, or lies in the configuration area. -/
def InArea (f : FeatureDescriptor) : Prop :=
  (f.configLength = 0 ∧ f.configOffset = 0) ∨
    (f.configLength ≠ 0 ∧ 512 ≤ f.configOffset.toNat ∧
      f.configOffset.toNat + f.configLength.toNat ≤ 528)

/-- What the decoder asks of a descriptor of each kind. -/
def KindOk (f : FeatureDescriptor) : Prop :=
  if f.kind = featureCompression then
    f.flags &&& featureRequired ≠ 0 ∧ f.version ≠ 0 ∧ ¬ f.algorithm > 0xffff ∧
      f.configOffset = 0 ∧ f.configLength = 0 ∧ f.regionOffset = 0 ∧ f.regionLength = 0
  else if f.kind = featureTimeIndex then
    f.flags &&& featureRequired ≠ 0 ∧ f.configOffset = 0 ∧ f.configLength = 0 ∧
      f.regionLength ≠ 0 ∧ f.algorithm = timeIndexMinMax ∧ f.version = 1
  else if f.kind = featureRecordProfile then
    f.flags = 0 ∧ f.algorithm = 0 ∧ f.configOffset = 512 ∧ f.configLength = 8 ∧
      f.regionOffset = 0 ∧ f.regionLength = 0
  else if f.kind = featureIntegrity then
    f.flags &&& featureRequired ≠ 0 ∧ f.configOffset = 0 ∧ f.configLength = 0 ∧
      f.regionOffset = 0 ∧ f.regionLength = 0 ∧ f.algorithm = integrityCrc32c ∧ f.version = 1
  else f.flags &&& featureRequired = 0

end FeatureDescriptor

namespace FeatureScan

/-- The kind was met before and may not be met again. -/
def Seen (acc : FeatureScan) (kind : UInt16) : Prop :=
  (kind = featureCompression ∧ acc.compression = true) ∨
  (kind = featureTimeIndex ∧ acc.timeIndex = true) ∨
  (kind = featureRecordProfile ∧ acc.recordProfile = true) ∨
  (kind = featureIntegrity ∧ acc.integrity = true)

/-- What the loop remembers of a descriptor by its kind. -/
def mark (id : UInt64) (acc : FeatureScan) (f : FeatureDescriptor) : FeatureScan :=
  if f.kind = featureCompression then
    { acc with
      compression := true
      options := { acc.options with
        compression := ⟨f.algorithm.toUInt16⟩, compressionVersion := f.version } }
  else if f.kind = featureTimeIndex then { acc with timeIndex := true }
  else if f.kind = featureRecordProfile then
    { acc with
      recordProfile := true
      options := { acc.options with recordFormatVersion := f.version, recordFormatId := id } }
  else if f.kind = featureIntegrity then { acc with integrity := true }
  else acc

/-- What the loop remembers of a descriptor. -/
def note (id : UInt64) (acc : FeatureScan) (f : FeatureDescriptor) : FeatureScan :=
  { acc.mark id f with
    configRanges := if f.configLength = 0 then acc.configRanges
      else acc.configRanges ++ [(f.configOffset, f.configOffset + f.configLength)]
    features := acc.features ++ [f] }

/-- The marks do not look at the configuration ranges, nor write the lists. -/
theorem mark_ranges (id : UInt64) (acc : FeatureScan) (f : FeatureDescriptor)
    (ranges : List (UInt32 × UInt32)) : ({ acc with configRanges := ranges }).mark id f =
      { acc.mark id f with configRanges := ranges } ∧ (acc.mark id f).features = acc.features := by
  unfold mark
  by_cases h1 : f.kind = featureCompression
  · simp only [if_pos h1, and_self]
  by_cases h2 : f.kind = featureTimeIndex
  · simp only [if_neg h1, if_pos h2, and_self]
  by_cases h3 : f.kind = featureRecordProfile
  · simp only [if_neg h1, if_neg h2, if_pos h3, and_self]
  by_cases h4 : f.kind = featureIntegrity
  · simp only [if_neg h1, if_neg h2, if_neg h3, if_pos h4, and_self]
  · simp only [if_neg h1, if_neg h2, if_neg h3, if_neg h4, and_self]

end FeatureScan

/-- A check that must not fire. -/
theorem ite_error_iff {α : Type} {p : Prop} [Decidable p] {code : StatusCode} {text : String}
    {x : Except Status α} {r : α} :
    (if p then failWith code text else x) = .ok r ↔ ¬ p ∧ x = .ok r := by
  by_cases h : p
  · rw [if_pos h]
    exact ⟨fun hx => (by cases hx), fun hx => absurd h hx.1⟩
  · rw [if_neg h]
    exact ⟨fun hx => ⟨h, hx⟩, fun hx => hx.2⟩

theorem checkConfigRange_iff (f : FeatureDescriptor) (ranges r : List (UInt32 × UInt32)) :
    checkConfigRange f ranges = .ok r ↔
      f.InArea ∧ (f.configLength ≠ 0 → ∀ x ∈ ranges,
        ¬ (f.configOffset < x.2 ∧ x.1 < f.configOffset + f.configLength)) ∧
      r = if f.configLength = 0 then ranges
        else ranges ++ [(f.configOffset, f.configOffset + f.configLength)] := by
  unfold checkConfigRange FeatureDescriptor.InArea
  by_cases hlen : f.configLength = 0
  · rw [if_pos hlen, if_pos hlen]
    by_cases hoff : f.configOffset = 0
    · rw [if_neg (fun h => h hoff)]
      constructor
      · intro h
        cases h
        exact ⟨.inl ⟨hlen, hoff⟩, fun h => absurd hlen h, rfl⟩
      · rintro ⟨-, -, rfl⟩
        rfl
    · rw [if_pos hoff]
      constructor
      · intro h
        cases h
      · rintro ⟨⟨-, h⟩ | ⟨h, -⟩, -⟩
        · exact absurd h hoff
        · exact absurd hlen h
  · rw [if_neg hlen, if_neg hlen]
    have harea : ¬ (f.configOffset < 512 ∨ f.configOffset > 528 ∨
        f.configLength > 528 - f.configOffset) ↔
        512 ≤ f.configOffset.toNat ∧ f.configOffset.toNat + f.configLength.toNat ≤ 528 := by
      have h512 : (512 : UInt32).toNat = 512 := rfl
      have h528 : (528 : UInt32).toNat = 528 := rfl
      by_cases hend : f.configOffset.toNat ≤ 528
      · have hsub : (528 - f.configOffset).toNat = 528 - f.configOffset.toNat :=
          UInt32.toNat_sub_of_le _ _ (UInt32.le_iff_toNat_le.mpr hend)
        simp only [gt_iff_lt, UInt32.lt_iff_toNat_lt, hsub, h512, h528]
        omega
      · simp only [gt_iff_lt, UInt32.lt_iff_toNat_lt, h512, h528]
        omega
    by_cases hbad : f.configOffset < 512 ∨ f.configOffset > 528 ∨
        f.configLength > 528 - f.configOffset
    · rw [if_pos hbad]
      constructor
      · intro h
        cases h
      · rintro ⟨⟨h, -⟩ | ⟨-, h⟩, -⟩
        · exact absurd h hlen
        · exact absurd hbad (harea.mpr h)
    · rw [if_neg hbad]
      dsimp only
      rw [ite_error_iff]
      simp only [List.any_eq_true, Bool.and_eq_true, decide_eq_true_eq, not_exists, not_and]
      constructor
      · rintro ⟨h, hr⟩
        cases hr
        exact ⟨.inr ⟨hlen, harea.mp hbad⟩, fun _ x hx h1 => h x hx h1, rfl⟩
      · rintro ⟨-, h, rfl⟩
        exact ⟨fun x hx h1 => h hlen x hx h1, rfl⟩

theorem FeatureScan.seen_compression (acc : FeatureScan) :
    acc.Seen featureCompression ↔ acc.compression = true := by
  simp [Seen, featureCompression, featureTimeIndex, featureRecordProfile, featureIntegrity]

theorem FeatureScan.seen_timeIndex (acc : FeatureScan) :
    acc.Seen featureTimeIndex ↔ acc.timeIndex = true := by
  simp [Seen, featureCompression, featureTimeIndex, featureRecordProfile, featureIntegrity]

theorem FeatureScan.seen_recordProfile (acc : FeatureScan) :
    acc.Seen featureRecordProfile ↔ acc.recordProfile = true := by
  simp [Seen, featureCompression, featureTimeIndex, featureRecordProfile, featureIntegrity]

theorem FeatureScan.seen_integrity (acc : FeatureScan) :
    acc.Seen featureIntegrity ↔ acc.integrity = true := by
  simp [Seen, featureCompression, featureTimeIndex, featureRecordProfile, featureIntegrity]

theorem decodeFeatureKind_iff (bs : Bytes) (f : FeatureDescriptor) (acc r : FeatureScan) :
    decodeFeatureKind bs f acc = .ok r ↔
      f.KindOk ∧ ¬ acc.Seen f.kind ∧ r = acc.mark (get64 bs 512) f := by
  unfold decodeFeatureKind FeatureDescriptor.KindOk FeatureScan.mark
  by_cases h1 : f.kind = featureCompression
  · rw [if_pos h1, if_pos h1, if_pos h1, h1, acc.seen_compression, ite_error_iff, ite_error_iff,
      Except.ok.injEq, eq_comm (b := r)]
    tauto
  rw [if_neg h1, if_neg h1, if_neg h1]
  by_cases h2 : f.kind = featureTimeIndex
  · rw [if_pos h2, if_pos h2, if_pos h2, h2, acc.seen_timeIndex, ite_error_iff, ite_error_iff,
      ite_error_iff, Except.ok.injEq, eq_comm (b := r)]
    tauto
  rw [if_neg h2, if_neg h2, if_neg h2]
  by_cases h3 : f.kind = featureRecordProfile
  · rw [if_pos h3, if_pos h3, if_pos h3, h3, acc.seen_recordProfile, ite_error_iff, ite_error_iff,
      Except.ok.injEq, eq_comm (b := r)]
    constructor
    · rintro ⟨hseen, hbad, rfl⟩
      push Not at hbad
      refine ⟨hbad, hseen, ?_⟩
      rw [hbad.2.2.1]
      rfl
    · rintro ⟨hgood, hseen, rfl⟩
      refine ⟨hseen, by tauto, ?_⟩
      rw [hgood.2.2.1]
      rfl
  rw [if_neg h3, if_neg h3, if_neg h3]
  by_cases h4 : f.kind = featureIntegrity
  · rw [if_pos h4, if_pos h4, if_pos h4, h4, acc.seen_integrity, ite_error_iff, ite_error_iff,
      ite_error_iff, Except.ok.injEq, eq_comm (b := r)]
    tauto
  rw [if_neg h4, if_neg h4, if_neg h4, ite_error_iff, Except.ok.injEq, eq_comm (b := r)]
  have hseen : ¬ acc.Seen f.kind := by
    unfold FeatureScan.Seen
    tauto
  tauto

/-! ## The loop -/

/-- The bytes of a descriptor, decoded. -/
def ofRaw (d : Bytes) : FeatureDescriptor := decodeDescriptor d 0

/-- What the loop asks of one descriptor alone. -/
def WellFormed (d : Bytes) : Prop :=
  ((ofRaw d).flags &&& ~~~featureRequired = 0 ∧ allZero d 10 2 = true ∧ allZero d 20 4 = true) ∧
    (ofRaw d).InArea ∧ (ofRaw d).KindOk

/-- What the loop asks of two descriptors. -/
def Compatible (d e : Bytes) : Prop :=
  (ofRaw d).Apart (ofRaw e) ∧ ¬ ((ofRaw d).IsCore ∧ (ofRaw d).kind = (ofRaw e).kind)

/-- The bytes of descriptor `i`. -/
def rawDescriptor (bs : Bytes) (i : Nat) : Bytes :=
  slice bs (128 + i * featureDescriptorSize) featureDescriptorSize

section
variable {bs : Bytes} {d n o : Nat}

theorem get16_slice (h : o + 2 ≤ n) : get16 (slice bs d n) o = get16 bs (d + o) := by
  rw [get16, slice_slice h, get16]

theorem get32_slice (h : o + 4 ≤ n) : get32 (slice bs d n) o = get32 bs (d + o) := by
  rw [get32, slice_slice h, get32]

theorem get64_slice (h : o + 8 ≤ n) : get64 (slice bs d n) o = get64 bs (d + o) := by
  rw [get64, slice_slice h, get64]

theorem allZero_slice {k : Nat} (h : o + k ≤ n) : allZero (slice bs d n) o k = allZero bs (d + o) k := by
  rw [allZero, slice_slice h, allZero]

end

theorem ofRaw_eq (bs : Bytes) (i : Nat) :
    ofRaw (rawDescriptor bs i) = decodeDescriptor bs (128 + i * featureDescriptorSize) := by
  unfold ofRaw rawDescriptor decodeDescriptor featureDescriptorSize
  rw [get16_slice (by omega), get16_slice (by omega), get32_slice (by omega), get16_slice (by omega),
    get32_slice (by omega), get32_slice (by omega), get64_slice (by omega), get64_slice (by omega)]
  simp only [Nat.add_zero, Nat.zero_add]

theorem bind_ok_iff {α β : Type} {x : Except Status α} {f : α → Except Status β} {b : β} :
    (x >>= f) = .ok b ↔ ∃ a, x = .ok a ∧ f a = .ok b := by
  constructor
  · exact bind_ok_inv
  · rintro ⟨a, rfl, h⟩
    exact h

theorem decodeFeature_iff (bs : Bytes) (acc : FeatureScan) (i : Nat) (r : FeatureScan) :
    decodeFeature bs acc i = .ok r ↔
      WellFormed (rawDescriptor bs i) ∧
      ((ofRaw (rawDescriptor bs i)).configLength ≠ 0 → ∀ x ∈ acc.configRanges,
        ¬ ((ofRaw (rawDescriptor bs i)).configOffset < x.2 ∧
          x.1 < (ofRaw (rawDescriptor bs i)).configOffset +
            (ofRaw (rawDescriptor bs i)).configLength)) ∧
      ¬ acc.Seen (ofRaw (rawDescriptor bs i)).kind ∧
      r = acc.note (get64 bs 512) (ofRaw (rawDescriptor bs i)) := by
  have h10 : allZero (rawDescriptor bs i) 10 2 = allZero bs (128 + i * featureDescriptorSize + 10) 2 :=
    allZero_slice (by decide)
  have h20 : allZero (rawDescriptor bs i) 20 4 = allZero bs (128 + i * featureDescriptorSize + 20) 4 :=
    allZero_slice (by decide)
  rw [WellFormed, h10, h20, ofRaw_eq]
  unfold decodeFeature
  dsimp only
  generalize decodeDescriptor bs (128 + i * featureDescriptorSize) = f
  rw [ite_error_iff, bind_ok_iff]
  simp only [bind_ok_iff, checkConfigRange_iff, decodeFeatureKind_iff, Except.ok.injEq]
  constructor
  · rintro ⟨hres, ranges, ⟨harea, hfree, rfl⟩, acc', ⟨hkind, hseen, rfl⟩, rfl⟩
    refine ⟨⟨by tauto, harea, hkind⟩, hfree, hseen, ?_⟩
    rw [(acc.mark_ranges _ f _).1, FeatureScan.note, (acc.mark_ranges (get64 bs 512) f []).2]
  · rintro ⟨⟨hres, harea, hkind⟩, hfree, hseen, rfl⟩
    refine ⟨by tauto, _, ⟨harea, hfree, rfl⟩, _, ⟨hkind, hseen, rfl⟩, ?_⟩
    rw [(acc.mark_ranges _ f _).1, FeatureScan.note, (acc.mark_ranges (get64 bs 512) f []).2]

/-- What the loop remembers of a directory. -/
def scanAll (id : UInt64) (acc : FeatureScan) (ds : List Bytes) : FeatureScan :=
  ds.foldl (fun acc d => acc.note id (ofRaw d)) acc

theorem FeatureScan.note_seen (id : UInt64) (acc : FeatureScan) (f : FeatureDescriptor) (k : UInt16) :
    (acc.note id f).Seen k ↔ acc.Seen k ∨ (f.IsCore ∧ f.kind = k) := by
  show (acc.mark id f).Seen k ↔ _
  unfold FeatureScan.mark Seen FeatureDescriptor.IsCore
  by_cases h1 : f.kind = featureCompression
  · rw [if_pos h1, h1, eq_comm (a := featureCompression)]
    simp only [featureCompression, featureTimeIndex, featureRecordProfile, featureIntegrity]
    tauto
  rw [if_neg h1]
  by_cases h2 : f.kind = featureTimeIndex
  · rw [if_pos h2, h2, eq_comm (a := featureTimeIndex)]
    tauto
  rw [if_neg h2]
  by_cases h3 : f.kind = featureRecordProfile
  · rw [if_pos h3, h3, eq_comm (a := featureRecordProfile)]
    tauto
  rw [if_neg h3]
  by_cases h4 : f.kind = featureIntegrity
  · rw [if_pos h4, h4, eq_comm (a := featureIntegrity)]
    tauto
  rw [if_neg h4]
  tauto

theorem FeatureScan.note_configRanges (id : UInt64) (acc : FeatureScan) (f : FeatureDescriptor) :
    (acc.note id f).configRanges = if f.configLength = 0 then acc.configRanges
      else acc.configRanges ++ [(f.configOffset, f.configOffset + f.configLength)] := rfl

theorem scanAll_seen (id : UInt64) (acc : FeatureScan) (ds : List Bytes) (k : UInt16) :
    (scanAll id acc ds).Seen k ↔ acc.Seen k ∨ ∃ d ∈ ds, (ofRaw d).IsCore ∧ (ofRaw d).kind = k := by
  induction ds generalizing acc with
  | nil => simp [scanAll]
  | cons d ds ih =>
    show (scanAll id (acc.note id (ofRaw d)) ds).Seen k ↔ _
    rw [ih, acc.note_seen id, List.exists_mem_cons_iff, or_assoc]

theorem mem_scanAll_configRanges (id : UInt64) (acc : FeatureScan) (ds : List Bytes)
    (x : UInt32 × UInt32) :
    x ∈ (scanAll id acc ds).configRanges ↔ x ∈ acc.configRanges ∨ ∃ d ∈ ds,
      (ofRaw d).configLength ≠ 0 ∧
      x = ((ofRaw d).configOffset, (ofRaw d).configOffset + (ofRaw d).configLength) := by
  induction ds generalizing acc with
  | nil => simp [scanAll]
  | cons d ds ih =>
    show x ∈ (scanAll id (acc.note id (ofRaw d)) ds).configRanges ↔ _
    rw [ih, acc.note_configRanges id, List.exists_mem_cons_iff, ← or_assoc]
    split
    · tauto
    · rw [List.mem_append, List.mem_singleton]
      tauto

/-- The overlap check of the loop, against a slice inside the area. -/
theorem overlap_iff {f g : FeatureDescriptor} (hf : f.InArea) (hg : g.InArea)
    (hfl : f.configLength ≠ 0) (hgl : g.configLength ≠ 0) :
    ¬ (f.configOffset < g.configOffset + g.configLength ∧
      g.configOffset < f.configOffset + f.configLength) ↔ g.Apart f := by
  have hfa := (hf.resolve_left fun h => hfl h.1).2
  have hga := (hg.resolve_left fun h => hgl h.1).2
  have h1 : (f.configOffset + f.configLength).toNat =
      f.configOffset.toNat + f.configLength.toNat := by
    rw [UInt32.toNat_add, Nat.mod_eq_of_lt (by omega)]
  have h2 : (g.configOffset + g.configLength).toNat =
      g.configOffset.toNat + g.configLength.toNat := by
    rw [UInt32.toNat_add, Nat.mod_eq_of_lt (by omega)]
  unfold FeatureDescriptor.Apart
  rw [UInt32.lt_iff_toNat_lt, UInt32.lt_iff_toNat_lt, h1, h2]
  simp only [hfl, hgl, false_or]
  omega

/-- What the loop checks against what it has seen is that the descriptor is compatible with each
before it. -/
theorem clear_iff {id : UInt64} {start : FeatureScan} (hseen : ∀ k, ¬ start.Seen k)
    (hranges : start.configRanges = []) {ds : List Bytes} (hwf : ∀ e ∈ ds, WellFormed e) {d : Bytes}
    (hd : WellFormed d) :
    (((ofRaw d).configLength ≠ 0 → ∀ x ∈ (scanAll id start ds).configRanges,
        ¬ ((ofRaw d).configOffset < x.2 ∧ x.1 < (ofRaw d).configOffset + (ofRaw d).configLength)) ∧
      ¬ (scanAll id start ds).Seen (ofRaw d).kind) ↔ ∀ e ∈ ds, Compatible e d := by
  rw [scanAll_seen]
  constructor
  · rintro ⟨hfree, hnew⟩ e he
    refine ⟨?_, fun h => hnew (.inr ⟨e, he, h⟩)⟩
    by_cases hdl : (ofRaw d).configLength = 0
    · exact .inr (.inl hdl)
    by_cases hel : (ofRaw e).configLength = 0
    · exact .inl hel
    have hmem := (mem_scanAll_configRanges id start ds _).mpr (.inr ⟨e, he, hel, rfl⟩)
    exact (overlap_iff hd.2.1 (hwf e he).2.1 hdl hel).mp (hfree hdl _ hmem)
  · intro h
    refine ⟨fun hdl x hx => ?_, ?_⟩
    · rw [mem_scanAll_configRanges, hranges] at hx
      obtain hx | ⟨e, he, hel, rfl⟩ := hx
      · cases hx
      · exact (overlap_iff hd.2.1 (hwf e he).2.1 hdl hel).mpr (h e he).1
    · rintro (hs | ⟨e, he, hcore, hkind⟩)
      · exact hseen _ hs
      · exact (h e he).2 ⟨hcore, hkind⟩

/-- **The loop accepts a directory for what its descriptors are.** -/
theorem scan_iff (bs : Bytes) {start : FeatureScan} (hseen : ∀ k, ¬ start.Seen k)
    (hranges : start.configRanges = []) (n : Nat) (r : FeatureScan) :
    (List.range n).foldlM (decodeFeature bs) start = .ok r ↔
      (∀ d ∈ (List.range n).map (rawDescriptor bs), WellFormed d) ∧
      ((List.range n).map (rawDescriptor bs)).Pairwise Compatible ∧
      r = scanAll (get64 bs 512) start ((List.range n).map (rawDescriptor bs)) := by
  induction n generalizing r with
  | zero =>
    simp only [List.range_zero, List.foldlM_nil, List.map_nil, List.Pairwise.nil, scanAll,
      List.foldl_nil, List.not_mem_nil, false_imp_iff, implies_true, true_and]
    exact ⟨fun h => (Except.ok.inj h).symm, fun h => by rw [h]; rfl⟩
  | succ n ih =>
    rw [List.range_succ, List.foldlM_append, List.map_append, bind_ok_iff, List.map_singleton]
    generalize (List.range n).map (rawDescriptor bs) = ds at ih
    generalize hid : get64 bs 512 = id at ih
    have hlast : ∀ acc, ([n].foldlM (decodeFeature bs) acc = .ok r) ↔ decodeFeature bs acc n = .ok r := by
      intro acc
      rw [List.foldlM_cons, bind_ok_iff]
      constructor
      · rintro ⟨a, ha, hr⟩
        cases hr
        exact ha
      · exact fun h => ⟨r, h, rfl⟩
    have hscan : scanAll id start (ds ++ [rawDescriptor bs n]) =
        (scanAll id start ds).note id (ofRaw (rawDescriptor bs n)) := by
      rw [scanAll, List.foldl_append]
      rfl
    simp only [hlast, ih, decodeFeature_iff, List.pairwise_append, List.forall_mem_append,
      List.forall_mem_singleton, List.pairwise_singleton, true_and, hid]
    generalize rawDescriptor bs n = d at hscan
    rw [hscan]
    constructor
    · rintro ⟨acc, ⟨hwf, hpair, rfl⟩, hd, hfree, hnew, rfl⟩
      refine ⟨⟨hwf, hd⟩, ⟨hpair, fun e he => ?_⟩, rfl⟩
      exact (clear_iff hseen hranges hwf hd).mp ⟨hfree, hnew⟩ e he
    · rintro ⟨⟨hwf, hd⟩, ⟨hpair, hcompat⟩, rfl⟩
      obtain ⟨hfree, hnew⟩ := (clear_iff hseen hranges hwf hd).mpr hcompat
      exact ⟨_, ⟨hwf, hpair, rfl⟩, hd, hfree, hnew, rfl⟩

/-! ## The options -/

/-- A part of the memory that only one kind of descriptor writes, and no two of them stand in the
directory, is what the one of that kind wrote. -/
theorem scanAll_written {α : Type} {π : FeatureScan → α} {K : FeatureDescriptor → Prop}
    {v : FeatureDescriptor → α} (id : UInt64)
    (hkeep : ∀ (acc : FeatureScan) f, ¬ K f → π (acc.note id f) = π acc)
    (hwrite : ∀ (acc : FeatureScan) f, K f → π (acc.note id f) = v f)
    {ds : List Bytes} (hone : ds.Pairwise fun d e => ¬ (K (ofRaw d) ∧ K (ofRaw e)))
    {d : Bytes} (hd : d ∈ ds) (hk : K (ofRaw d)) (acc : FeatureScan) :
    π (scanAll id acc ds) = v (ofRaw d) := by
  have hrest : ∀ (es : List Bytes) (acc : FeatureScan), (∀ e ∈ es, ¬ K (ofRaw e)) →
      π (scanAll id acc es) = π acc := by
    intro es
    induction es with
    | nil => exact fun _ _ => rfl
    | cons e es ih =>
      intro acc h
      obtain ⟨he, hes⟩ := List.forall_mem_cons.mp h
      exact (ih (acc.note id (ofRaw e)) hes).trans (hkeep acc _ he)
  induction ds generalizing acc with
  | nil => cases hd
  | cons e ds ih =>
    obtain ⟨hhead, htail⟩ := List.pairwise_cons.mp hone
    rcases List.mem_cons.mp hd with rfl | hmem
    · exact (hrest ds (acc.note id (ofRaw d)) fun x hx hkx => hhead x hx ⟨hk, hkx⟩).trans
        (hwrite acc _ hk)
    · exact ih htail hmem (acc.note id (ofRaw e))

theorem FeatureScan.note_options (id : UInt64) (acc : FeatureScan) (f : FeatureDescriptor) :
    (acc.note id f).options =
      if f.kind = featureCompression then
        { acc.options with compression := ⟨f.algorithm.toUInt16⟩, compressionVersion := f.version }
      else if f.kind = featureRecordProfile then
        { acc.options with recordFormatVersion := f.version, recordFormatId := id }
      else acc.options := by
  show (acc.mark id f).options = _
  unfold mark
  by_cases h1 : f.kind = featureCompression
  · simp only [if_pos h1]
  by_cases h2 : f.kind = featureTimeIndex
  · rw [if_neg h1, if_pos h2, if_neg h1, if_neg (by rw [h2]; decide)]
  by_cases h3 : f.kind = featureRecordProfile
  · simp only [if_neg h1, if_neg h2, if_pos h3]
  · rw [if_neg h1, if_neg h2, if_neg h3, if_neg h1, if_neg h3]
    split <;> rfl

/-- **The options of a directory**: the codec of the one descriptor of its kind, the profile of the
other. -/
theorem scanAll_options {id : UInt64} {ds : List Bytes} (hpair : ds.Pairwise Compatible)
    {c p : Bytes} (hc : c ∈ ds) (hp : p ∈ ds) (hck : (ofRaw c).kind = featureCompression)
    (hpk : (ofRaw p).kind = featureRecordProfile) (acc : FeatureScan) :
    (scanAll id acc ds).options =
      { acc.options with
        compression := ⟨(ofRaw c).algorithm.toUInt16⟩, compressionVersion := (ofRaw c).version
        recordFormatId := id, recordFormatVersion := (ofRaw p).version } := by
  have hone : ∀ k, (k = featureCompression ∨ k = featureRecordProfile) →
      ds.Pairwise fun d e => ¬ ((ofRaw d).kind = k ∧ (ofRaw e).kind = k) := by
    intro k hk
    refine hpair.imp fun h hboth => h.2 ⟨?_, hboth.1.trans hboth.2.symm⟩
    rcases hk with rfl | rfl
    · exact .inl hboth.1
    · exact .inr (.inr (.inl hboth.1))
  have hcodec := scanAll_written id
    (π := fun s => (s.options.compression, s.options.compressionVersion))
    (K := fun f => f.kind = featureCompression)
    (v := fun f => (⟨f.algorithm.toUInt16⟩, f.version))
    (by
      intro acc f hk
      simp only [acc.note_options id, if_neg hk]
      split <;> rfl)
    (by
      intro acc f hk
      simp only [acc.note_options id, if_pos hk])
    (hone _ (.inl rfl)) hc hck acc
  have hprofile := scanAll_written id
    (π := fun s => (s.options.recordFormatId, s.options.recordFormatVersion))
    (K := fun f => f.kind = featureRecordProfile) (v := fun f => (id, f.version))
    (by
      intro acc f hk
      simp only [acc.note_options id, if_neg hk]
      split <;> rfl)
    (by
      intro acc f hk
      have hne : f.kind ≠ featureCompression := by
        rw [hk]
        decide
      simp only [acc.note_options id, if_neg hne, if_pos hk])
    (hone _ (.inr rfl)) hp hpk acc
  have hothers : ∀ (es : List Bytes) (acc : FeatureScan),
      (scanAll id acc es).options.timeDomainId = acc.options.timeDomainId ∧
      (scanAll id acc es).options.allowedBackwardSkewNs = acc.options.allowedBackwardSkewNs ∧
      (scanAll id acc es).options.allowedForwardStepNs = acc.options.allowedForwardStepNs := by
    intro es
    induction es with
    | nil => exact fun _ => ⟨rfl, rfl, rfl⟩
    | cons e es ih =>
      intro acc
      have hnote := ih (acc.note id (ofRaw e))
      rw [acc.note_options id] at hnote
      split at hnote
      · exact hnote
      split at hnote
      · exact hnote
      · exact hnote
  obtain ⟨h1, h2, h3⟩ := hothers ds acc
  generalize (scanAll id acc ds).options = o at *
  cases o
  simp only [Prod.mk.injEq] at hcodec hprofile h1 h2 h3 ⊢
  simp only [hcodec.1, hcodec.2, hprofile.1, hprofile.2, h1, h2, h3]

theorem scanAll_features (id : UInt64) (acc : FeatureScan) (ds : List Bytes) :
    (scanAll id acc ds).features = acc.features ++ ds.map ofRaw := by
  induction ds generalizing acc with
  | nil => exact (List.append_nil _).symm
  | cons d ds ih =>
    show (scanAll id (acc.note id (ofRaw d)) ds).features = _
    rw [ih, List.map_cons]
    show (acc.features ++ [ofRaw d]) ++ ds.map ofRaw = _
    rw [List.append_assoc, List.singleton_append]

/-! ## The header -/

/-- The descriptors a header lists. -/
def directory (bs : Bytes) : List Bytes :=
  (List.range (get16 bs 88).toNat).map (rawDescriptor bs)

/-- What the decoder asks of a header apart from its descriptors. -/
structure HeaderShape (bs : Bytes) : Prop where
  common : commonCheck bs partitionMagic partitionHeaderEncodedSize 104 = .ok ()
  reserved : allZero bs 44 4 = true ∧ allZero bs 108 20 = true
  shape : (get16 bs 90).toNat = featureDescriptorSize ∧ get32 bs 92 = 128 ∧ get32 bs 96 = 512 ∧
    get32 bs 100 = 16

/-- What the decoder asks of the descriptors; `id` is the identifier in the configuration area. -/
structure DirectorySound (id : UInt64) (ds : List Bytes) : Prop where
  count : ds.length ≤ 8
  wellFormed : ∀ d ∈ ds, WellFormed d
  compatible : ds.Pairwise Compatible
  core : ∀ k ∈ [featureCompression, featureTimeIndex, featureRecordProfile, featureIntegrity],
    ∃ d ∈ ds, (ofRaw d).kind = k
  profile : ∀ d ∈ ds, (ofRaw d).kind = featureRecordProfile → (id = 0 ↔ (ofRaw d).version = 0)

/-- The options the scan starts with. -/
def headerOptions (bs : Bytes) : PartitionOptions :=
  { allowedBackwardSkewNs := geti64 bs 64, allowedForwardStepNs := geti64 bs 72
    timeDomainId := get64 bs 80 }

/-- The flags of the scan say that every core kind is there. -/
theorem core_iff {id : UInt64} {start : FeatureScan} (hstart : ∀ k, ¬ start.Seen k)
    (ds : List Bytes) :
    ((scanAll id start ds).compression = true ∧ (scanAll id start ds).timeIndex = true ∧
      (scanAll id start ds).integrity = true ∧ (scanAll id start ds).recordProfile = true) ↔
    ∀ k ∈ [featureCompression, featureTimeIndex, featureRecordProfile, featureIntegrity],
      ∃ d ∈ ds, (ofRaw d).kind = k := by
  have hfound : ∀ k, (k = featureCompression ∨ k = featureTimeIndex ∨ k = featureRecordProfile ∨
      k = featureIntegrity) →
      ((scanAll id start ds).Seen k ↔ ∃ d ∈ ds, (ofRaw d).kind = k) := by
    intro k hk
    rw [scanAll_seen]
    constructor
    · rintro (h | ⟨d, hd, -, h⟩)
      · exact absurd h (hstart k)
      · exact ⟨d, hd, h⟩
    · rintro ⟨d, hd, rfl⟩
      exact .inr ⟨d, hd, hk, rfl⟩
  simp only [List.forall_mem_cons, List.not_mem_nil, false_imp_iff, implies_true, and_true]
  rw [← hfound _ (.inl rfl), ← hfound _ (.inr (.inl rfl)), ← hfound _ (.inr (.inr (.inl rfl))),
    ← hfound _ (.inr (.inr (.inr rfl))), FeatureScan.seen_compression, FeatureScan.seen_timeIndex,
    FeatureScan.seen_recordProfile, FeatureScan.seen_integrity]
  tauto

/-- **A header is accepted for what its descriptors are.** -/
theorem decodePartitionHeader_iff (bs : Bytes) (h : PartitionHeader) :
    decodePartitionHeader bs = .ok h ↔
      HeaderShape bs ∧ DirectorySound (get64 bs 512) (directory bs) ∧
      h = { volumeIdHigh := get64 bs 16, volumeIdLow := get64 bs 24, generation := get64 bs 32
            slot := get32 bs 40, createdTimeNs := geti64 bs 48, maxBlockPayload := get32 bs 56
            persistenceQuantum := get32 bs 60
            options := (scanAll (get64 bs 512) { options := headerOptions bs } (directory bs)).options
            features := (directory bs).map ofRaw } := by
  have hstart : ∀ k, ¬ ({ options := headerOptions bs } : FeatureScan).Seen k := by
    intro k hk
    simp [FeatureScan.Seen] at hk
  have hlen : (directory bs).length = (get16 bs 88).toNat := by
    rw [directory, List.length_map, List.length_range]
  unfold decodePartitionHeader
  simp only [bind_ok_iff, ite_error_iff, Except.ok.injEq]
  constructor
  · rintro ⟨u, hcommon, hzero, hshape, scan, hscan, hcore, hprofile, rfl⟩
    obtain ⟨hwf, hpair, rfl⟩ := (scan_iff bs hstart rfl _ _).mp hscan
    rw [← directory] at hwf hpair hcore hprofile ⊢
    push Not at hzero hshape hcore
    obtain ⟨hcount, hwidth, hoffset, harea, hsize, -⟩ := hshape
    rw [core_iff hstart] at hcore
    obtain ⟨c, hc, hck⟩ := hcore featureCompression (by simp)
    refine ⟨⟨hcommon, hzero, hwidth, hoffset, harea, hsize⟩,
      ⟨by omega, hwf, hpair, hcore, fun p hp hpk => ?_⟩, ?_⟩
    · rw [scanAll_options hpair hc hp hck hpk, ne_eq, not_not] at hprofile
      exact Iff.of_eq hprofile
    · rw [scanAll_features]
      rfl
  · rintro ⟨hok, hdir, rfl⟩
    have hcount := hdir.count
    obtain ⟨c, hc, hck⟩ := hdir.core featureCompression (by simp)
    obtain ⟨p, hp, hpk⟩ := hdir.core featureRecordProfile (by simp)
    obtain ⟨hwidth, hoffset, harea, hsize⟩ := hok.shape
    have h128 : (get32 bs 92).toNat = 128 := by
      rw [hoffset]
      rfl
    have hroom : (get16 bs 88).toNat * (get16 bs 90).toNat ≤
        partitionHeaderEncodedSize - (get32 bs 92).toNat := by
      rw [hwidth, h128, featureDescriptorSize, partitionHeaderEncodedSize]
      omega
    refine ⟨(), hok.common, ?_, ?_, _,
      (scan_iff bs hstart rfl _ _).mpr ⟨hdir.wellFormed, hdir.compatible, rfl⟩, ?_, ?_, ?_⟩
    · have := hok.reserved
      tauto
    · push Not
      exact ⟨by omega, hwidth, hoffset, harea, hsize, hroom⟩
    · push Not
      exact (core_iff hstart _).mpr hdir.core
    · rw [← directory, scanAll_options hdir.compatible hc hp hck hpk, ne_eq, not_not]
      exact propext (hdir.profile p hp hpk)
    · rw [← directory, scanAll_features]
      rfl

/-! ## Headers with other descriptors -/

/-- The header with these descriptors and its checksum computed again. -/
def withDirectory (bs : Bytes) (ds : List Bytes) : Bytes :=
  finishCrc (put (put bs 88 (put16 (UInt16.ofNat ds.length))) 128 ds.flatten) 104

theorem flatten_length {ds : List Bytes} (h : ∀ d ∈ ds, d.length = featureDescriptorSize) :
    ds.flatten.length = ds.length * featureDescriptorSize := by
  induction ds with
  | nil => rfl
  | cons d ds ih =>
    obtain ⟨hd, hds⟩ := List.forall_mem_cons.mp h
    rw [List.flatten_cons, List.length_append, List.length_cons, ih hds, hd, Nat.succ_mul,
      Nat.add_comm]

theorem slice_flatten {ds : List Bytes} (h : ∀ d ∈ ds, d.length = featureDescriptorSize) (i : Nat)
    (hi : i < ds.length) :
    slice ds.flatten (i * featureDescriptorSize) featureDescriptorSize = ds[i] := by
  induction ds generalizing i with
  | nil => cases hi
  | cons d ds ih =>
    obtain ⟨hd, hds⟩ := List.forall_mem_cons.mp h
    rw [List.flatten_cons]
    cases i with
    | zero =>
      rw [Nat.zero_mul, slice, List.drop_zero, List.take_append_of_le_length (by omega),
        List.take_of_length_le (by omega)]
      rfl
    | succ i =>
      have hi : i < ds.length := by simpa using hi
      rw [slice, List.drop_append, List.drop_of_length_le (by rw [hd, Nat.succ_mul]; omega),
        List.nil_append, hd,
        show (i + 1) * featureDescriptorSize - featureDescriptorSize = i * featureDescriptorSize by
          rw [Nat.succ_mul]; omega]
      exact ih hds i hi

theorem commonCheck_iff {bs magic : Bytes} {n c : Nat} (hl : bs.length = n) (hn : 8 ≤ n) :
    commonCheck bs magic n c = .ok () ↔ Checked bs magic n c := by
  refine ⟨commonCheck_inv hl, fun h => ?_⟩
  have hsize := h.size
  have hfield := h.field
  have hmagic : magicIs bs magic = true := by
    simp only [magicIs, h.magic, beq_self_eq_true, Bool.and_true, decide_eq_true_eq]
    omega
  unfold commonCheck
  rw [if_neg (by omega), if_neg (by rw [hmagic]; simp), if_neg (by rw [h.major]; simp),
    if_neg (by rw [h.minor]; simp [formatMinor])]
  dsimp only
  rw [hsize, if_neg (by omega), if_neg (by omega), List.take_of_length_le (by omega),
    if_neg (by rw [h.crc]; simp)]

section
variable {bs : Bytes} {ds : List Bytes} (hl : bs.length = partitionHeaderEncodedSize)
  (hds : ∀ d ∈ ds, d.length = featureDescriptorSize) (hcount : ds.length ≤ 8)
include hl hds hcount

/-- The replaced windows lie in the header. -/
theorem withDirectory_room :
    88 + (put16 (UInt16.ofNat ds.length)).length ≤ bs.length ∧
    128 + ds.flatten.length ≤ (put bs 88 (put16 (UInt16.ofNat ds.length))).length ∧
    128 + ds.flatten.length ≤ 448 ∧
    (put (put bs 88 (put16 (UInt16.ofNat ds.length))) 128 ds.flatten).length = 1024 := by
  have hflat := flatten_length hds
  rw [featureDescriptorSize] at hflat
  rw [partitionHeaderEncodedSize] at hl
  have h88 : 88 + (put16 (UInt16.ofNat ds.length)).length ≤ bs.length := by
    rw [put16_length]
    omega
  have h128 : 128 + ds.flatten.length ≤ (put bs 88 (put16 (UInt16.ofNat ds.length))).length := by
    rw [put_length h88]
    omega
  refine ⟨h88, h128, by omega, ?_⟩
  rw [put_length h128, put_length h88, hl]

theorem withDirectory_length : (withDirectory bs ds).length = partitionHeaderEncodedSize := by
  obtain ⟨-, -, -, hlen⟩ := withDirectory_room hl hds hcount
  rw [withDirectory, finishCrc_length (by omega), hlen, partitionHeaderEncodedSize]

/-- Only the count, the descriptors and the checksum change. -/
theorem slice_withDirectory {o k : Nat}
    (h : o + k ≤ 88 ∨ (90 ≤ o ∧ o + k ≤ 104) ∨ (108 ≤ o ∧ o + k ≤ 128) ∨ 448 ≤ o) :
    slice (withDirectory bs ds) o k = slice bs o k := by
  obtain ⟨h88, h128, hend, hlen⟩ := withDirectory_room hl hds hcount
  rw [put16_length] at h88
  rw [withDirectory, slice_finishCrc (by omega) (by omega)]
  rcases h with h | h | h | h
  · rw [slice_put_before h128 (by omega), slice_put_before (by rwa [put16_length]) h]
  · rw [slice_put_before h128 (by omega),
      slice_put_after (by rwa [put16_length]) (by rw [put16_length]; omega)]
  · rw [slice_put_before h128 (by omega),
      slice_put_after (by rwa [put16_length]) (by rw [put16_length]; omega)]
  · rw [slice_put_after h128 (by omega),
      slice_put_after (by rwa [put16_length]) (by rw [put16_length]; omega)]

theorem directory_withDirectory : directory (withDirectory bs ds) = ds := by
  obtain ⟨h88, h128, hend, hlen⟩ := withDirectory_room hl hds hcount
  have hflat := flatten_length hds
  have hn : (get16 (withDirectory bs ds) 88).toNat = ds.length := by
    have hget : get16 (withDirectory bs ds) 88 = UInt16.ofNat ds.length := by
      apply get16_of_slice
      rw [withDirectory, slice_finishCrc (by omega) (by omega), slice_put_before h128 (by omega),
        slice_put_same h88 (put16_length _).symm]
    rw [hget, UInt16.toNat_ofNat', Nat.mod_eq_of_lt (by omega)]
  rw [directory, hn]
  refine List.ext_getElem (by rw [List.length_map, List.length_range]) fun i h1 h2 => ?_
  rw [List.getElem_map, List.getElem_range, ← slice_flatten hds i h2, rawDescriptor, withDirectory]
  rw [featureDescriptorSize] at hflat ⊢
  rw [slice_finishCrc (by omega) (by omega)]
  have hwindow : slice (put (put bs 88 (put16 (UInt16.ofNat ds.length))) 128 ds.flatten) 128
      ds.flatten.length = ds.flatten := slice_put_same h128 rfl
  rw [← slice_slice (n := ds.flatten.length) (by omega), hwindow]

/-- The common check, apart from the checksum. -/
theorem headerOk_withDirectory (hcrc : crc32cWithZeroedField bs 104 = get32 bs 104) :
    HeaderShape (withDirectory bs ds) ↔ HeaderShape bs := by
  obtain ⟨-, -, -, hlen⟩ := withDirectory_room hl hds hcount
  have hlen' := withDirectory_length hl hds hcount
  have hseal : crc32cWithZeroedField (withDirectory bs ds) 104 = get32 (withDirectory bs ds) 104 := by
    rw [withDirectory, crc32cWithZeroedField_finishCrc (by omega), get32_finishCrc (by omega)]
  have hsame : ∀ {o k : Nat},
      (o + k ≤ 88 ∨ (90 ≤ o ∧ o + k ≤ 104) ∨ (108 ≤ o ∧ o + k ≤ 128) ∨ 448 ≤ o) →
      slice (withDirectory bs ds) o k = slice bs o k := fun h => slice_withDirectory hl hds hcount h
  have hcommon : commonCheck (withDirectory bs ds) partitionMagic partitionHeaderEncodedSize 104 =
      .ok () ↔ commonCheck bs partitionMagic partitionHeaderEncodedSize 104 = .ok () := by
    rw [commonCheck_iff hlen' (by decide), commonCheck_iff hl (by decide)]
    constructor
    · rintro ⟨h1, h2, h3, h4, h5, -⟩
      rw [hsame (by omega)] at h1
      rw [get16, hsame (by omega)] at h2 h3
      rw [get32, hsame (by omega)] at h4
      exact ⟨h1, h2, h3, h4, h5, hcrc⟩
    · rintro ⟨h1, h2, h3, h4, h5, -⟩
      refine ⟨?_, ?_, ?_, ?_, h5, hseal⟩
      · rw [hsame (by omega)]
        exact h1
      · rw [get16, hsame (by omega)]
        exact h2
      · rw [get16, hsame (by omega)]
        exact h3
      · rw [get32, hsame (by omega)]
        exact h4
  have h44 : allZero (withDirectory bs ds) 44 4 = allZero bs 44 4 := by
    rw [allZero, hsame (by omega), allZero]
  have h108 : allZero (withDirectory bs ds) 108 20 = allZero bs 108 20 := by
    rw [allZero, hsame (by omega), allZero]
  have h90 : get16 (withDirectory bs ds) 90 = get16 bs 90 := by rw [get16, hsame (by omega), get16]
  have h92 : get32 (withDirectory bs ds) 92 = get32 bs 92 := by rw [get32, hsame (by omega), get32]
  have h96 : get32 (withDirectory bs ds) 96 = get32 bs 96 := by rw [get32, hsame (by omega), get32]
  have h100 : get32 (withDirectory bs ds) 100 = get32 bs 100 := by
    rw [get32, hsame (by omega), get32]
  constructor
  · rintro ⟨hc, hr, hs⟩
    rw [h44, h108] at hr
    rw [h90, h92, h96, h100] at hs
    exact ⟨hcommon.mp hc, hr, hs⟩
  · rintro ⟨hc, hr, hs⟩
    refine ⟨hcommon.mpr hc, ?_, ?_⟩
    · rw [h44, h108]
      exact hr
    · rw [h90, h92, h96, h100]
      exact hs

end

/-! ## Sets of descriptors -/

theorem Compatible.symm {d e : Bytes} (h : Compatible d e) : Compatible e d := by
  obtain ⟨hapart, hkind⟩ := h
  refine ⟨?_, fun ⟨hcore, heq⟩ => hkind ⟨?_, heq.symm⟩⟩
  · unfold FeatureDescriptor.Apart at hapart ⊢
    tauto
  · unfold FeatureDescriptor.IsCore at hcore ⊢
    rwa [heq] at hcore

/-- The order of the descriptors does not matter. -/
theorem DirectorySound.perm {id : UInt64} {ds es : List Bytes} (h : DirectorySound id ds)
    (hp : ds.Perm es) : DirectorySound id es where
  count := by
    rw [← hp.length_eq]
    exact h.count
  wellFormed d hd := h.wellFormed d (hp.mem_iff.mpr hd)
  compatible := (hp.pairwise_iff fun h => h.symm).mp h.compatible
  core k hk := by
    obtain ⟨d, hd, hkd⟩ := h.core k hk
    exact ⟨d, hp.mem_iff.mp hd, hkd⟩
  profile d hd := h.profile d (hp.mem_iff.mpr hd)

/-- A descriptor of an unknown kind that a reader may skip: not required, reserved fields zero, no
region, and no configuration or one behind the record profile's. -/
structure Unrelated (d : Bytes) : Prop where
  size : d.length = featureDescriptorSize
  kind : ¬ (ofRaw d).IsCore
  flags : (ofRaw d).flags = 0
  reserved : allZero d 10 2 = true ∧ allZero d 20 4 = true
  region : (ofRaw d).regionOffset = 0 ∧ (ofRaw d).regionLength = 0
  config : ((ofRaw d).configLength = 0 ∧ (ofRaw d).configOffset = 0) ∨
    ((ofRaw d).configLength ≠ 0 ∧ 520 ≤ (ofRaw d).configOffset.toNat ∧
      (ofRaw d).configOffset.toNat + (ofRaw d).configLength.toNat ≤ 528)

theorem Unrelated.wellFormed {d : Bytes} (h : Unrelated d) : WellFormed d := by
  have hk := h.kind
  unfold FeatureDescriptor.IsCore at hk
  push Not at hk
  refine ⟨⟨by rw [h.flags]; rfl, h.reserved⟩, ?_, ?_⟩
  · rcases h.config with hc | ⟨h1, h2, h3⟩
    · exact .inl hc
    · exact .inr ⟨h1, by omega, h3⟩
  · unfold FeatureDescriptor.KindOk
    rw [if_neg hk.1, if_neg hk.2.1, if_neg hk.2.2.1, if_neg hk.2.2.2, h.flags]
    rfl

/-- Foreign descriptors beside those of a directory, no two configurations with a byte in common. -/
structure Insertion (ds us : List Bytes) : Prop where
  foreign : ∀ u ∈ us, Unrelated u
  apart : us.Pairwise fun u v => (ofRaw u).Apart (ofRaw v)
  beside : ∀ d ∈ ds, ∀ u ∈ us, (ofRaw d).Apart (ofRaw u)
  count : ds.length + us.length ≤ 8

/-- Foreign descriptors do not matter. -/
theorem DirectorySound.extend_iff {id : UInt64} {ds us : List Bytes} (hx : Insertion ds us) :
    DirectorySound id (ds ++ us) ↔ DirectorySound id ds := by
  have hcount := hx.count
  constructor
  · intro h
    refine ⟨by omega, fun d hd => h.wellFormed d (List.mem_append_left _ hd),
      (List.pairwise_append.mp h.compatible).1, fun k hk => ?_,
      fun d hd => h.profile d (List.mem_append_left _ hd)⟩
    obtain ⟨d, hd, hkd⟩ := h.core k hk
    rcases List.mem_append.mp hd with hd | hu
    · exact ⟨d, hd, hkd⟩
    · refine absurd ?_ (hx.foreign d hu).kind
      unfold FeatureDescriptor.IsCore
      simpa [hkd] using hk
  · intro h
    refine ⟨by rw [List.length_append]; exact hcount, fun d hd => ?_, ?_, fun k hk => ?_,
      fun d hd hkd => ?_⟩
    · rcases List.mem_append.mp hd with hd | hu
      · exact h.wellFormed d hd
      · exact (hx.foreign d hu).wellFormed
    · refine List.pairwise_append.mpr ⟨h.compatible, ?_, fun d hd u hu => ⟨hx.beside d hd u hu, ?_⟩⟩
      · exact hx.apart.imp_of_mem fun hu _ ha => ⟨ha, fun hc => (hx.foreign _ hu).kind hc.1⟩
      · rintro ⟨hcore, hkind⟩
        refine (hx.foreign u hu).kind ?_
        unfold FeatureDescriptor.IsCore at hcore ⊢
        rwa [hkind] at hcore
    · obtain ⟨d, hd, hkd⟩ := h.core k hk
      exact ⟨d, List.mem_append_left _ hd, hkd⟩
    · rcases List.mem_append.mp hd with hd | hu
      · exact h.profile d hd hkd
      · exact absurd (.inr (.inr (.inl hkd))) (hx.foreign d hu).kind

/-- A directory that is a rearrangement of another one with foreign descriptors is as good, with the
same options. -/
theorem DirectorySound.same {id : UInt64} {ds us es : List Bytes} (hx : Insertion ds us)
    (hp : es.Perm (ds ++ us)) :
    (DirectorySound id es ↔ DirectorySound id ds) ∧ (DirectorySound id ds → ∀ acc,
      (scanAll id acc es).options = (scanAll id acc ds).options) := by
  have hiff : DirectorySound id es ↔ DirectorySound id ds := by
    rw [← DirectorySound.extend_iff hx]
    exact ⟨fun h => h.perm hp, fun h => h.perm hp.symm⟩
  refine ⟨hiff, fun h acc => ?_⟩
  obtain ⟨c, hc, hck⟩ := h.core featureCompression (by simp)
  obtain ⟨p, hpm, hpk⟩ := h.core featureRecordProfile (by simp)
  have hin : ∀ {d}, d ∈ ds → d ∈ es := fun hd => hp.mem_iff.mpr (List.mem_append_left _ hd)
  rw [scanAll_options h.compatible hc hpm hck hpk,
    scanAll_options (hiff.mpr h).compatible (hin hc) (hin hpm) hck hpk]

/-! ## Reading a header -/

/-- What `read_partition_header` asks of the region of a descriptor. -/
def FeatureDescriptor.RegionOk (env : Env) (f : FeatureDescriptor) : Prop :=
  ¬ (f.regionOffset.toNat > env.partitionSize ∨
      f.regionLength.toNat > env.partitionSize - f.regionOffset.toNat) ∧
  ¬ (f.kind = featureTimeIndex ∧
      (f.regionOffset.toNat ≠ env.indexBegin ∨ f.regionLength.toNat ≠ env.indexRegionSize)) ∧
  ¬ (f.kind ≠ featureCompression ∧ f.kind ≠ featureTimeIndex ∧ f.kind ≠ featureRecordProfile ∧
      f.kind ≠ featureIntegrity ∧ f.regionLength ≠ 0)

theorem checkFeatures_iff (env : Env) (fs : List FeatureDescriptor) :
    checkFeatures env fs = .ok () ↔ ∀ f ∈ fs, f.RegionOk env := by
  induction fs with
  | nil => simp [checkFeatures]
  | cons f fs ih =>
    rw [checkFeatures, ite_error_iff, ite_error_iff, ite_error_iff, ih, List.forall_mem_cons,
      FeatureDescriptor.RegionOk]
    tauto

theorem acceptPartitionHeader_iff (env : Env) (slot : UInt32) (bs : Bytes) (h : PartitionHeader) :
    acceptPartitionHeader env slot bs = .ok h ↔
      decodePartitionHeader bs = .ok h ∧
      ¬ (h.volumeIdHigh ≠ env.volume.volumeIdHigh ∨ h.volumeIdLow ≠ env.volume.volumeIdLow ∨
        h.slot ≠ slot ∨ h.maxBlockPayload ≠ env.volume.maxBlockPayload ∨
        h.persistenceQuantum ≠ env.volume.persistenceQuantum) ∧
      env.validatePartitionOptions h.options = .ok () ∧ ∀ f ∈ h.features, f.RegionOk env := by
  unfold acceptPartitionHeader
  simp only [bind_ok_iff, ite_error_iff, Except.ok.injEq]
  constructor
  · rintro ⟨h', hd, hid, _, hopt, _, hfeat, rfl⟩
    exact ⟨hd, hid, hopt, (checkFeatures_iff env _).mp hfeat⟩
  · rintro ⟨hd, hid, hopt, hfeat⟩
    exact ⟨h, hd, hid, (), hopt, (), (checkFeatures_iff env _).mpr hfeat, rfl⟩

theorem Unrelated.regionOk {d : Bytes} (h : Unrelated d) (env : Env) : (ofRaw d).RegionOk env := by
  have hk := h.kind
  unfold FeatureDescriptor.IsCore at hk
  obtain ⟨ho, hlen⟩ := h.region
  unfold FeatureDescriptor.RegionOk
  rw [ho, hlen]
  have hz : (0 : UInt64).toNat = 0 := rfl
  refine ⟨by rw [hz]; omega, fun hx => hk (.inr (.inl hx.1)), fun hx => hx.2.2.2.2 rfl⟩

/-- Both accept with the same options, or both refuse. -/
def SameOptions (x y : Except Status PartitionHeader) : Prop :=
  (∃ h h', x = .ok h ∧ y = .ok h' ∧ h.options = h'.options) ∨
  ∃ e e', x = .error e ∧ y = .error e'

theorem SameOptions.of_iff {x y : Except Status PartitionHeader}
    (h : ∀ h', y = .ok h' → ∃ h, x = .ok h)
    (h' : ∀ h, x = .ok h → ∃ h', y = .ok h' ∧ h.options = h'.options) : SameOptions x y := by
  cases x with
  | ok a =>
    obtain ⟨b, hb, ho⟩ := h' a rfl
    exact .inl ⟨a, b, rfl, hb, ho⟩
  | error e =>
    cases y with
    | ok b =>
      obtain ⟨a, ha⟩ := h b rfl
      cases ha
    | error e' => exact .inr ⟨e, e', rfl, rfl⟩

section
variable {bs : Bytes} {us es : List Bytes} (hl : bs.length = partitionHeaderEncodedSize)
  (hcrc : crc32cWithZeroedField bs 104 = get32 bs 104) (hx : Insertion (directory bs) us)
  (hp : es.Perm (directory bs ++ us))
include hl hcrc hx hp

/-- The decoder reads the same header, with the other list of features. -/
theorem decode_withDirectory (h' : PartitionHeader) :
    decodePartitionHeader (withDirectory bs es) = .ok h' ↔
      ∃ h, decodePartitionHeader bs = .ok h ∧ h' = { h with features := es.map ofRaw } := by
  have hcount : es.length ≤ 8 := by
    rw [hp.length_eq, List.length_append]
    exact hx.count
  have hes : ∀ d ∈ es, d.length = featureDescriptorSize := by
    intro d hd
    rcases List.mem_append.mp (hp.mem_iff.mp hd) with hd | hu
    · obtain ⟨i, hi, rfl⟩ := List.mem_map.mp hd
      have hn := hx.count
      rw [directory, List.length_map, List.length_range] at hn
      have hi := List.mem_range.mp hi
      refine slice_length ?_
      rw [hl, featureDescriptorSize, partitionHeaderEncodedSize]
      omega
    · exact (hx.foreign d hu).size
  have hsame : ∀ {o k : Nat},
      (o + k ≤ 88 ∨ (90 ≤ o ∧ o + k ≤ 104) ∨ (108 ≤ o ∧ o + k ≤ 128) ∨ 448 ≤ o) →
      slice (withDirectory bs es) o k = slice bs o k := fun h => slice_withDirectory hl hes hcount h
  have h64 : ∀ {o : Nat}, o + 8 ≤ 88 ∨ 448 ≤ o → get64 (withDirectory bs es) o = get64 bs o := by
    intro o ho
    rw [get64, hsame (by omega), get64]
  have h32 : ∀ {o : Nat}, o + 4 ≤ 88 → get32 (withDirectory bs es) o = get32 bs o := by
    intro o ho
    rw [get32, hsame (by omega), get32]
  have hi64 : ∀ {o : Nat}, o + 8 ≤ 88 → geti64 (withDirectory bs es) o = geti64 bs o := by
    intro o ho
    rw [geti64_eq, h64 (by omega), ← geti64_eq]
  have hoptions : headerOptions (withDirectory bs es) = headerOptions bs := by
    rw [headerOptions, hi64 (by omega), hi64 (by omega), h64 (by omega), headerOptions]
  obtain ⟨hsound, hopt⟩ := @DirectorySound.same (get64 bs 512) _ _ _ hx hp
  rw [decodePartitionHeader_iff, headerOk_withDirectory hl hes hcount hcrc,
    directory_withDirectory hl hes hcount, h64 (by omega), hsound, hoptions, h64 (by omega),
    h64 (by omega), h64 (by omega), h32 (by omega), hi64 (by omega), h32 (by omega), h32 (by omega)]
  simp only [decodePartitionHeader_iff]
  constructor
  · rintro ⟨hok, hdir, rfl⟩
    exact ⟨_, ⟨hok, hdir, rfl⟩, by rw [hopt hdir]⟩
  · rintro ⟨h, ⟨hok, hdir, rfl⟩, rfl⟩
    exact ⟨hok, hdir, by rw [hopt hdir]⟩

theorem decode_same :
    SameOptions (decodePartitionHeader bs) (decodePartitionHeader (withDirectory bs es)) := by
  refine SameOptions.of_iff (fun h' hd => ?_) (fun h hd => ?_)
  · obtain ⟨h, hh, -⟩ := (decode_withDirectory hl hcrc hx hp h').mp hd
    exact ⟨h, hh⟩
  · exact ⟨_, (decode_withDirectory hl hcrc hx hp _).mpr ⟨h, hd, rfl⟩, rfl⟩

theorem accept_same (env : Env) (slot : UInt32) :
    SameOptions (acceptPartitionHeader env slot bs)
      (acceptPartitionHeader env slot (withDirectory bs es)) := by
  have hregions : ∀ {h : PartitionHeader}, decodePartitionHeader bs = .ok h →
      ((∀ f ∈ es.map ofRaw, f.RegionOk env) ↔ ∀ f ∈ h.features, f.RegionOk env) := by
    intro h hd
    obtain ⟨-, -, rfl⟩ := (decodePartitionHeader_iff bs h).mp hd
    simp only [List.forall_mem_map, hp.mem_iff, List.mem_append]
    exact ⟨fun hf d hd => hf d (.inl hd),
      fun hf d hd => hd.elim (hf d) fun hu => (hx.foreign d hu).regionOk env⟩
  refine SameOptions.of_iff (fun h' ha => ?_) (fun h ha => ?_)
  · obtain ⟨hd, hid, hopt, hreg⟩ := (acceptPartitionHeader_iff env slot _ h').mp ha
    obtain ⟨h, hh, rfl⟩ := (decode_withDirectory hl hcrc hx hp h').mp hd
    exact ⟨h, (acceptPartitionHeader_iff env slot bs h).mpr ⟨hh, hid, hopt, (hregions hh).mp hreg⟩⟩
  · obtain ⟨hd, hid, hopt, hreg⟩ := (acceptPartitionHeader_iff env slot bs h).mp ha
    refine ⟨{ h with features := es.map ofRaw }, ?_, rfl⟩
    refine (acceptPartitionHeader_iff env slot _ _).mpr ⟨?_, hid, hopt, (hregions hd).mpr hreg⟩
    exact (decode_withDirectory hl hcrc hx hp _).mpr ⟨h, hd, rfl⟩

end

/-! ## The directory -/

theorem countP_eq_one {α : Type} {P : α → Bool} {l : List α} (hone : l.Pairwise fun a b => ¬ (P a ∧ P b))
    (hsome : ∃ a ∈ l, P a) : l.countP P = 1 := by
  induction l with
  | nil =>
    obtain ⟨a, ha, -⟩ := hsome
    cases ha
  | cons a l ih =>
    obtain ⟨hhead, htail⟩ := List.pairwise_cons.mp hone
    by_cases ha : P a
    · have hrest : l.countP P = 0 := List.countP_eq_zero.mpr fun b hb hpb => hhead b hb ⟨ha, hpb⟩
      rw [List.countP_cons_of_pos ha, hrest]
    · rw [List.countP_cons_of_neg ha]
      obtain ⟨b, hb, hpb⟩ := hsome
      rcases List.mem_cons.mp hb with rfl | hb
      · exact absurd hpb ha
      · exact ih htail ⟨b, hb, hpb⟩

/-- What an accepted header lists. -/
theorem accepted_features {bs : Bytes} {h : PartitionHeader} (hd : decodePartitionHeader bs = .ok h) :
    h.features = (directory bs).map ofRaw ∧ h.features.length ≤ 8 ∧
    (∀ k ∈ [featureCompression, featureTimeIndex, featureRecordProfile, featureIntegrity],
      h.features.countP (fun f => f.kind == k) = 1) ∧
    h.features.Pairwise FeatureDescriptor.Apart ∧ ∀ f ∈ h.features, f.InArea := by
  obtain ⟨-, hdir, rfl⟩ := (decodePartitionHeader_iff bs h).mp hd
  refine ⟨rfl, by rw [List.length_map]; exact hdir.count, fun k hk => ?_, ?_, ?_⟩
  · refine countP_eq_one ?_ ?_
    · refine List.pairwise_map.mpr (hdir.compatible.imp fun hc hboth => hc.2 ?_)
      simp only [beq_iff_eq] at hboth
      refine ⟨?_, hboth.1.trans hboth.2.symm⟩
      unfold FeatureDescriptor.IsCore
      simpa [hboth.1] using hk
    · obtain ⟨d, hdm, hkd⟩ := hdir.core k hk
      exact ⟨ofRaw d, List.mem_map.mpr ⟨d, hdm, rfl⟩, by rw [hkd]; exact beq_self_eq_true k⟩
  · exact List.pairwise_map.mpr (hdir.compatible.imp fun hc => hc.1)
  · intro f hf
    obtain ⟨d, hdm, rfl⟩ := List.mem_map.mp hf
    exact (hdir.wellFormed d hdm).2.1

/-- The run of `read_partition_header` on a source that returns these bytes. -/
theorem run_read {env : Env} {slot : UInt32} {bs : Bytes} {src : Source Status}
    (h : src (env.partitionBase slot) partitionHeaderEncodedSize = .ok bs) :
    Rd.run src (readPartitionHeader env slot) = acceptPartitionHeader env slot bs := by
  rw [readPartitionHeader, Rd.run_bind, Rd.run_readExact, h, Rd.bind_ok, Rd.run_lift]

/-- **The feature directory is an unordered, extensible set.**  A header of 1024 bytes with a right
checksum is accepted, by the decoder and by `read_partition_header`, with the same options as any
header that lists its descriptors in another order, and as any header that lists foreign ones among
them, up to eight in all; more than eight are refused whatever they are.  An accepted header lists
each core kind once, and its configuration slices lie apart in the configuration area. -/
theorem directory_unordered :
    (∀ (bs : Bytes) (h : PartitionHeader), 8 < (directory bs).length →
      decodePartitionHeader bs ≠ .ok h) ∧
    (∀ (bs : Bytes) (es : List Bytes), bs.length = partitionHeaderEncodedSize →
      crc32cWithZeroedField bs 104 = get32 bs 104 → (directory bs).length ≤ 8 →
      es.Perm (directory bs) →
      SameOptions (decodePartitionHeader bs) (decodePartitionHeader (withDirectory bs es)) ∧
      ∀ (env : Env) (slot : UInt32) (src src' : Source Status),
        src (env.partitionBase slot) partitionHeaderEncodedSize = .ok bs →
        src' (env.partitionBase slot) partitionHeaderEncodedSize = .ok (withDirectory bs es) →
        SameOptions (Rd.run src (readPartitionHeader env slot))
          (Rd.run src' (readPartitionHeader env slot))) ∧
    (∀ (bs : Bytes) (us es : List Bytes), bs.length = partitionHeaderEncodedSize →
      crc32cWithZeroedField bs 104 = get32 bs 104 → Insertion (directory bs) us →
      es.Perm (directory bs ++ us) →
      SameOptions (decodePartitionHeader bs) (decodePartitionHeader (withDirectory bs es)) ∧
      ∀ (env : Env) (slot : UInt32) (src src' : Source Status),
        src (env.partitionBase slot) partitionHeaderEncodedSize = .ok bs →
        src' (env.partitionBase slot) partitionHeaderEncodedSize = .ok (withDirectory bs es) →
        SameOptions (Rd.run src (readPartitionHeader env slot))
          (Rd.run src' (readPartitionHeader env slot))) ∧
    ∀ (bs : Bytes) (h : PartitionHeader), decodePartitionHeader bs = .ok h →
      h.features = (directory bs).map ofRaw ∧
      (∀ k ∈ [featureCompression, featureTimeIndex, featureRecordProfile, featureIntegrity],
        h.features.countP (fun f => f.kind == k) = 1) ∧
      h.features.Pairwise FeatureDescriptor.Apart ∧ ∀ f ∈ h.features, f.InArea := by
  have hboth : ∀ (bs : Bytes) (us es : List Bytes), bs.length = partitionHeaderEncodedSize →
      crc32cWithZeroedField bs 104 = get32 bs 104 → Insertion (directory bs) us →
      es.Perm (directory bs ++ us) →
      SameOptions (decodePartitionHeader bs) (decodePartitionHeader (withDirectory bs es)) ∧
      ∀ (env : Env) (slot : UInt32) (src src' : Source Status),
        src (env.partitionBase slot) partitionHeaderEncodedSize = .ok bs →
        src' (env.partitionBase slot) partitionHeaderEncodedSize = .ok (withDirectory bs es) →
        SameOptions (Rd.run src (readPartitionHeader env slot))
          (Rd.run src' (readPartitionHeader env slot)) := by
    intro bs us es hl hcrc hx hp
    refine ⟨decode_same hl hcrc hx hp, fun env slot src src' hsrc hsrc' => ?_⟩
    rw [run_read hsrc, run_read hsrc']
    exact accept_same hl hcrc hx hp env slot
  refine ⟨?_, ?_, hboth, ?_⟩
  · intro bs h hlong hd
    obtain ⟨hfeat, hcount, -⟩ := accepted_features hd
    rw [hfeat, List.length_map] at hcount
    omega
  · intro bs es hl hcrc hcount hp
    refine hboth bs [] es hl hcrc ⟨?_, List.Pairwise.nil, ?_, hcount⟩ (by rwa [List.append_nil])
    · exact fun u hu => (by cases hu)
    · exact fun d _ u hu => (by cases hu)
  · intro bs h hd
    obtain ⟨h1, -, h3, h4, h5⟩ := accepted_features hd
    exact ⟨h1, h3, h4, h5⟩

/-- A descriptor of a kind that no reader knows. -/
def unknownDescriptor : Bytes := put16 9 ++ List.replicate 38 0

/-- The directory of a default header backwards, behind an unknown descriptor, gives the same
options. -/
theorem reordered_directory_accepted : ∃ h,
    decodePartitionHeader (withDirectory (encodePartitionHeader {} 8832 128)
      (unknownDescriptor :: (directory (encodePartitionHeader {} 8832 128)).reverse)) = .ok h ∧
      h.options = {} := by
  have hdecode : decodePartitionHeader (encodePartitionHeader {} 8832 128) =
      .ok { features := writerFeatures {} 8832 128 } :=
    decodePartitionHeader_encode (by decide) (by decide) (by decide)
  have hlength := encodePartitionHeader_length {} 8832 128
  have hcrc : crc32cWithZeroedField (encodePartitionHeader {} 8832 128) 104 =
      get32 (encodePartitionHeader {} 8832 128) 104 :=
    record_sealed (partitionHeaderFields_placed ..) (by decide)
  obtain ⟨hfeatures, -⟩ := directory_unordered.2.2.2 _ _ hdecode
  generalize encodePartitionHeader {} 8832 128 = bs at *
  have hcount : (directory bs).length = 4 := by
    have hlen : ((directory bs).map ofRaw).length = (directory bs).length := List.length_map ..
    rw [← hlen, ← hfeatures]
    rfl
  have hunrelated : Unrelated unknownDescriptor :=
    ⟨by decide, by decide, by decide, by decide, by decide, by decide⟩
  have hinsertion : Insertion (directory bs) [unknownDescriptor] := by
    refine ⟨fun u hu => ?_, List.pairwise_singleton .., fun d _ u hu => ?_, ?_⟩
    · rw [List.mem_singleton.mp hu]
      exact hunrelated
    · rw [List.mem_singleton.mp hu]
      exact Or.inr (Or.inl (by decide))
    · rw [hcount]
      decide
  have hperm : (unknownDescriptor :: (directory bs).reverse).Perm
      (directory bs ++ [unknownDescriptor]) :=
    (@List.perm_append_comm _ [unknownDescriptor] _).trans
      ((List.reverse_perm _).append_right _)
  obtain ⟨⟨h, h', hh, hh', ho⟩ | ⟨e, e', he, -⟩, -⟩ :=
    directory_unordered.2.2.1 bs [unknownDescriptor] _ hlength hcrc hinsertion hperm
  · rw [hdecode] at hh
    obtain rfl := Except.ok.inj hh
    exact ⟨h', hh', ho.symm⟩
  · rw [hdecode] at he
    cases he

end TFDB
