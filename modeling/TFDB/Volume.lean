import TFDB.Reopen

/-!
# The volume header

`format` checks the geometry with sums, `open` checks it again with differences, and each reads or
writes two copies of the header.

* `formatHeader_id` — the ID in the header is not zero;
* `readVolumeHeader_copy` — one copy that decodes is enough;
* `format_open_agree` — what `format` writes is accepted by `open`, from either copy.
-/

set_option autoImplicit false

namespace TFDB

open ByteLib

/-- The medium behind a successful `format`. -/
def formattedImage (v : VolumeHeader) (prior : Image) : Image :=
  ((formatProgram v).exec (Item.bytes { volume := v }) { durable := prior }).2.volatile
    (Item.bytes { volume := v })

/-- Only bytes of the copy at `off` were changed. -/
structure CopyAltered (off : Nat) (m m' : Image) : Prop where
  size : m'.size = m.size
  outside : ∀ a, a < off ∨ off + volumeHeaderEncodedSize ≤ a → m'.byte a = m.byte a

/-- `partition_base`, over 64 bits as the source computes it. -/
def partitionBase64 (v : VolumeHeader) (slot : UInt32) : UInt64 :=
  8192 + slot.toUInt64 * v.partitionSize

theorem chooseId_nonzero {high low : UInt64} {allow : Bool} {text : String}
    {random : Except Status (UInt64 × UInt64)} (hrandom : random ≠ .ok (0, 0)) {id : UInt64 × UInt64}
    (h : chooseId high low allow text random = .ok id) : id.1 ≠ 0 ∨ id.2 ≠ 0 := by
  unfold chooseId at h
  split at h
  · rename_i hexplicit
    split at h
    · cases h
    · cases h
      exact hexplicit
  · rw [h] at hrandom
    by_contra hzero
    rw [not_or, not_not, not_not] at hzero
    apply hrandom
    exact congrArg Except.ok (Prod.ext hzero.1 hzero.2)

/-- The ID of a formatted volume is not zero. -/
theorem formatHeader_id {size : Nat} {o : VolumeOptions} {random : Except Status (UInt64 × UInt64)}
    (hrandom : random ≠ .ok (0, 0)) {v : VolumeHeader} (h : formatHeader size o random = .ok v) :
    v.volumeIdHigh ≠ 0 ∨ v.volumeIdLow ≠ 0 := by
  unfold formatHeader at h
  dsimp only at h
  split at h
  · cases h
  split at h
  · cases h
  split at h
  · cases h
  split at h
  · cases h
  cases hid : chooseId o.volumeIdHigh o.volumeIdLow o.allowExplicitVolumeIdForTesting
      "explicit volume ID is restricted to tests/golden vectors" random with
  | error e =>
    rw [hid] at h
    cases h
  | ok id =>
    rw [hid] at h
    cases h
    exact chooseId_nonzero hrandom hid

section
variable {env : Env} {m : Image} (g : Geometry env) (hm : env.volume.volumeSize.toNat ≤ m.size)
include g hm

/-- One copy is enough. -/
theorem readVolumeHeader_copy
    (h : (m.window 0 volumeHeaderEncodedSize = encodeVolumeHeader env.volume ∧
        ∃ e, decodeVolumeHeader (m.window volumeHeaderCopySize volumeHeaderEncodedSize) = .error e) ∨
      (m.window volumeHeaderCopySize volumeHeaderEncodedSize = encodeVolumeHeader env.volume ∧
        ∃ e, decodeVolumeHeader (m.window 0 volumeHeaderEncodedSize) = .error e)) :
    Rd.run (imageSource m) readVolumeHeader = .ok env.volume := by
  rw [run_readVolumeHeader_select g hm]
  rcases h with ⟨hw, e, he⟩ | ⟨hw, e, he⟩
  · rw [hw, he, g.decodeVolume]
    rfl
  · rw [hw, he, g.decodeVolume]
    rfl

end

/-- A slot is where 64-bit arithmetic has it. -/
theorem partitionBase64_eq {env : Env} (g : Geometry env) {slot : UInt32}
    (hs : slot < env.volume.partitionCount) :
    (partitionBase64 env.volume slot).toNat = env.partitionBase slot := by
  have hend := g.slot_end hs
  have hlt := env.volume.volumeSize.toNat_lt
  have hpos := g.partitionSize_pos
  have hbase : env.partitionBase slot = 8192 + slot.toNat * env.volume.partitionSize.toNat := rfl
  have hmul : (slot.toUInt64 * env.volume.partitionSize).toNat =
      slot.toNat * env.volume.partitionSize.toNat := by
    rw [UInt64.toNat_mul, UInt32.toNat_toUInt64, Nat.mod_eq_of_lt (by omega)]
  have hprefix : (8192 : UInt64).toNat = 8192 := rfl
  rw [partitionBase64, UInt64.toNat_add, hmul, hbase, hprefix]
  exact Nat.mod_eq_of_lt (by omega)

/-- A window beside an altered copy. -/
theorem CopyAltered.window {off : Nat} {m m' : Image} (h : CopyAltered off m m') {o n : Nat}
    (hd : o + n ≤ off ∨ off + volumeHeaderEncodedSize ≤ o) : m'.window o n = m.window o n := by
  refine Image.window_congr fun a h1 h2 => h.outside a ?_
  omega

/-- **Format and open agree on the geometry, and either copy of the header suffices.**  If `format`
succeeds, both copies decode to the header it wrote, every backend of at least the recorded size
passes the geometry checks, every slot lies inside the volume at the place 64-bit arithmetic has it,
and `open` goes on with the same header after any change inside one of the copies that keeps that
copy from decoding. -/
theorem format_open_agree {prior : Image} (hsize : prior.size < 2 ^ 64) {o : VolumeOptions}
    {random : Except Status (UInt64 × UInt64)} (hrandom : random ≠ .ok (0, 0)) {v : VolumeHeader}
    (hformat : formatHeader prior.size o random = .ok v) :
    (decodeVolumeHeader ((formattedImage v prior).window 0 volumeHeaderEncodedSize) = .ok v ∧
      decodeVolumeHeader
        ((formattedImage v prior).window volumeHeaderCopySize volumeHeaderEncodedSize) = .ok v) ∧
    (∀ backendSize, v.volumeSize.toNat ≤ backendSize →
      validateVolumeGeometry v backendSize = .ok ()) ∧
    (∀ slot < v.partitionCount,
      (partitionBase64 v slot).toNat = volumePrefixSize + slot.toNat * v.partitionSize.toNat ∧
      (partitionBase64 v slot).toNat + v.partitionSize.toNat ≤ v.volumeSize.toNat) ∧
    Rd.run (imageSource (formattedImage v prior)) readVolumeHeader = .ok v ∧
    ∀ m' off, off = 0 ∨ off = volumeHeaderCopySize → CopyAltered off (formattedImage v prior) m' →
      (∃ e, decodeVolumeHeader (m'.window off volumeHeaderEncodedSize) = .error e) →
      Rd.run (imageSource m') readVolumeHeader = .ok v ∧
        validateVolumeGeometry v m'.size = .ok () := by
  obtain ⟨g, hsz⟩ := @formatHeader_geometry prior.size o random { volume := v } hsize
    (formatHeader_id hrandom hformat) hformat
  have hr : RingInv { volume := v } prior _ := RingInv.formatted
  have hfirst : (formattedImage v prior).window 0 volumeHeaderEncodedSize = encodeVolumeHeader v :=
    hr.first
  have hsecond : (formattedImage v prior).window volumeHeaderCopySize volumeHeaderEncodedSize =
      encodeVolumeHeader v := hr.second
  have hsame : (formattedImage v prior).size = prior.size := hr.size
  have hdecode : decodeVolumeHeader (encodeVolumeHeader v) = .ok v := g.decodeVolume
  have hvalid (size : Nat) (hle : v.volumeSize.toNat ≤ size) :
      validateVolumeGeometry v size = .ok () :=
    @validateVolumeGeometry_ok { volume := v } g size hle
  have hle : v.volumeSize.toNat = prior.size := hsz
  refine ⟨⟨?_, ?_⟩, hvalid, fun slot hs => ?_, ?_, ?_⟩
  · rw [hfirst, hdecode]
  · rw [hsecond, hdecode]
  · have hbase := partitionBase64_eq g hs
    refine ⟨hbase, ?_⟩
    rw [hbase]
    exact g.slot_end hs
  · exact run_readVolumeHeader g (by rw [hsame, ← hle]) hfirst hsecond
  · intro m' off hoff halt hbad
    have hm' : v.volumeSize.toNat ≤ m'.size := by
      rw [halt.size, hsame, ← hle]
    refine ⟨?_, hvalid _ hm'⟩
    apply @readVolumeHeader_copy { volume := v } m' g hm'
    rcases hoff with rfl | rfl
    · right
      refine ⟨?_, hbad⟩
      rw [halt.window (Or.inr (by decide))]
      exact hsecond
    · left
      refine ⟨?_, hbad⟩
      rw [halt.window (Or.inl (by decide))]
      exact hfirst

/-- The sample volume with its first copy lost. -/
theorem sample_second_copy : Rd.run (imageSource ((formattedImage Sample.env.volume Sample.image).write
    0 (zeros volumeHeaderEncodedSize))) readVolumeHeader = .ok Sample.env.volume := by
  obtain ⟨-, -, -, -, hcopy⟩ := @format_open_agree Sample.image (by decide) Sample.options (.ok (1, 2))
    (by decide) Sample.env.volume Sample.formats
  generalize formattedImage Sample.env.volume Sample.image = m at hcopy ⊢
  refine (hcopy _ 0 (Or.inl rfl) ⟨Image.write_size _ _ _, fun a ha => ?_⟩ ?_).1
  · apply Image.write_byte_out
    rw [zeros_length]
    omega
  · have hw : (m.write 0 (zeros volumeHeaderEncodedSize)).window 0 volumeHeaderEncodedSize =
        zeros volumeHeaderEncodedSize := Image.window_write_same _ (zeros_length _).symm
    rw [hw]
    have hforeign : Foreign (zeros volumeHeaderEncodedSize) := by
      rw [Foreign, zeros, volumeHeaderEncodedSize, List.replicate_succ, List.head?_cons]
      decide
    obtain ⟨text, ht⟩ := hforeign.decodeVolumeHeader
    exact ⟨_, ht⟩

end TFDB
