import TFDB.Strict
import TFDB.Fresh

/-!
# Images with many blocks

A volume of two slots and a quantum of 256 bytes, and an image of it for every number of blocks its
first partition has room for.  Each block holds one byte, and no footer was written.

* `Room` — what is asked of the volume;
* `chain` — the blocks are a chain, and their payloads decode;
* `verified`, `opens` — each of these images opens under strict verification;
* `Terabyte` — such a volume whose first partition has room for `2 ^ 32 + 1` blocks.
-/

set_option autoImplicit false

namespace TFDB

open ByteLib

namespace ManyBlocks

section
variable (env : Env)

def header : PartitionHeader := Writer.newHeader env 0 1 {}

/-- Block number `i` of the first partition. -/
def block (i : Nat) : BlockHeader where
  generation := 1
  sequence := UInt32.ofNat i
  recordCount := 1
  storedSize := 1
  rawSize := 1
  frameSpan := 256
  payloadCrc := crc32c [7]
  volumeIdHigh := env.volume.volumeIdHigh
  volumeIdLow := env.volume.volumeIdLow
  writerIdHigh := 3
  writerIdLow := 4
  previousWriterIdHigh := if i = 0 then 0 else 3
  previousWriterIdLow := if i = 0 then 0 else 4

def frame (i : Nat) : Bytes := encodeBlockHeader (block env i) ++ [7]

/-- The first `n` blocks, each in a span of 256 bytes. -/
def blocks (size n : Nat) : Image where
  size := size
  byte x := if 12288 ≤ x ∧ x < 12288 + 256 * n then
    (frame env ((x - 12288) / 256)).getD ((x - 12288) % 256) 0 else 0

def image (size n : Nat) : Image :=
  (((blocks env size n).write 0 (encodeVolumeHeader env.volume)).write 4096
    (encodeVolumeHeader env.volume)).write 8192 (Item.bytes env (.header (header env)))

/-- The volume has two slots, and the first one room for `n` blocks. -/
structure Room (size n : Nat) : Prop where
  geometry : Geometry env
  slots : env.volume.partitionCount = 2
  quantum : env.quantum = 256
  room : 4096 + 256 * n ≤ env.indexBegin
  size : env.volume.volumeSize.toNat ≤ size

end

/-- The options of a strict open. -/
def strict : OpenOptions := { verifyPayloadsOnOpen := true }

section
variable {env : Env} {size n : Nat}

theorem image_byte {x : Nat} (hx : 9216 ≤ x) :
    (image env size n).byte x = (blocks env size n).byte x := by
  have h1 := Item.bytes_header_length env (header env)
  have h2 : (encodeVolumeHeader env.volume).length = 256 := Item.bytes_volume_length env env.volume
  unfold image
  rw [Image.write_byte_out (by omega), Image.write_byte_out (by omega),
    Image.write_byte_out (by omega)]

theorem image_frame {i : Nat} (hi : i < n) {o k : Nat} (hk : o + k ≤ 129) :
    (image env size n).window (12288 + 256 * i + o) k = slice (frame env i) o k := by
  have hlen : (frame env i).length = 129 := by simp [frame]
  refine List.ext_getElem? fun j => ?_
  rw [Image.window_getElem?, slice, List.getElem?_take]
  split
  · rename_i hj
    rw [image_byte (by omega), List.getElem?_drop]
    have h1 : 12288 + 256 * i + o + j - 12288 = 256 * i + (o + j) := by omega
    have h2 : (256 * i + (o + j)) / 256 = i := by omega
    have h3 : (256 * i + (o + j)) % 256 = o + j := by omega
    simp only [blocks, h1, h2, h3]
    rw [if_pos (by omega), List.getElem?_eq_getElem (by omega), List.getD_eq_getElem?_getD,
      List.getElem?_eq_getElem (by omega)]
    rfl
  · rfl

theorem image_empty {x : Nat} (hx : 12288 + 256 * n ≤ x) :
    (image env size n).byte x ≠ magicByte := by
  rw [image_byte (by omega)]
  simp only [blocks]
  rw [if_neg (by omega)]
  exact Sample.blank_byte

theorem base_zero : env.partitionBase ((header env).written env).slot = 8192 := by
  show volumePrefixSize + 0 * env.partitionSize = 8192
  rw [Nat.zero_mul]
  rfl

theorem header_found (g : Geometry env) :
    slotHeader env (image env size n) 0 = .ok ((header env).written env) := by
  have hok : HeaderOk env (header env) := ⟨rfl, rfl, rfl, rfl, rfl, show (1 : UInt16) ≠ 0 by decide⟩
  have hw : (image env size n).window (env.partitionBase 0) partitionHeaderEncodedSize =
      Item.bytes env (.header (header env)) := by
    have hbase : env.partitionBase 0 = 8192 := base_zero
    rw [hbase]
    exact Image.window_write_same _ (Item.bytes_header_length env (header env)).symm
  unfold slotHeader
  rw [hw]
  exact acceptPartitionHeader_encode g hok

variable (hr : Room env size n)
include hr

/-- Block `i` is a frame of the chain, where a scan expects it. -/
theorem frameAt {i : Nat} (hi : i < n) {st : ScanState} (hcur : st.cursor = 4096 + 256 * i)
    (hseq : st.expectedSequence = UInt32.ofNat i)
    (hhigh : st.expectedWriterHigh = if i = 0 then 0 else 3)
    (hlow : st.expectedWriterLow = if i = 0 then 0 else 4) :
    FrameAt env (image env size n) ((header env).written env) env.indexBegin st (block env i) [7] := by
  have hbase : env.partitionBase ((header env).written env).slot + st.cursor =
      12288 + 256 * i + 0 := by
    rw [hcur, base_zero]
    omega
  have hroom := hr.room
  have hpayload := hr.geometry.payload_pos
  have hbytes : slice (frame env i) 0 128 = encodeBlockHeader (block env i) := by
    simp [slice, frame]
  have hpay : slice (frame env i) 128 1 = [7] := by
    simp [slice, frame]
  have hone : (1 : UInt32) ≤ env.volume.maxBlockPayload := UInt32.le_iff_toNat_le.mpr hpayload
  refine ⟨?_, ?_, ?_, ?_, rfl⟩
  · simp only [hcur, blockHeaderEncodedSize]
    omega
  · rw [hbase, image_frame hi (by simp [blockHeaderEncodedSize])]
    simp only [blockHeaderEncodedSize]
    rw [hbytes]
    exact decodeBlockHeader_encode (by simp [BlockHeader.inBounds, block])
  · refine ⟨rfl, rfl, rfl, rfl, hhigh.symm, hlow.symm, hseq.symm, by simp [block],
      Int64.le_refl _, hone, hone, by simp [compressionAgrees, block], ?_, ?_, ?_, ?_⟩
    · rw [hr.quantum]
      show 256 % 256 = 0
      rfl
    · rw [hcur, hr.quantum]
      omega
    · rw [hcur]
      show 256 ≤ _
      omega
    · rw [hr.quantum]
      show alignUp 129 256 = some 256
      decide
  · have hbase' : env.partitionBase ((header env).written env).slot + st.cursor +
        blockHeaderEncodedSize = 12288 + 256 * i + 128 := by
      rw [hbase]
      rfl
    rw [hbase', show (block env i).storedSize.toNat = 1 from rfl, image_frame hi (by omega), hpay]

/-- The first `k` blocks are a chain, and their payloads decode. -/
theorem chain : ∀ k, k ≤ n → ∃ fs st,
    Chain env (image env size n) ((header env).written env) env.indexBegin {} fs st ∧
      fs.length = k ∧ st.cursor = 4096 + 256 * k ∧ st.expectedSequence = UInt32.ofNat k ∧
      st.expectedWriterHigh = (if k = 0 then 0 else 3) ∧
      st.expectedWriterLow = (if k = 0 then 0 else 4) ∧
      ∀ f ∈ fs, ∃ raw, decodePayload env f.1 f.2 = .ok raw := by
  intro k
  induction k with
  | zero => exact fun _ => ⟨[], {}, .nil _, rfl, rfl, rfl, rfl, rfl, fun f hf => by cases hf⟩
  | succ k ih =>
    intro hk
    obtain ⟨fs, st, hc, hlen, hcur, hseq, hhigh, hlow, hdec⟩ := ih (by omega)
    have hf := frameAt hr (by omega) hcur hseq hhigh hlow
    refine ⟨_, _, hc.snoc hf, by simp [hlen], ?_, ?_, rfl, rfl, fun f hm => ?_⟩
    · show st.cursor + 256 = _
      omega
    · show st.expectedSequence + 1 = _
      rw [hseq, UInt32.ofNat_add]
      rfl
    · rcases List.mem_append.mp hm with hm | hm
      · exact hdec f hm
      · rw [List.mem_singleton.mp hm]
        exact ⟨[7], rfl⟩

omit hr in
/-- Behind the last block there is nothing. -/
theorem stuck {st : ScanState} (hcur : st.cursor = 4096 + 256 * n) :
    Stuck env (image env size n) ((header env).written env) env.indexBegin st := by
  intro b x hf
  have hbase : 12288 + 256 * n ≤ env.partitionBase ((header env).written env).slot + st.cursor := by
    rw [hcur, base_zero]
    omega
  obtain ⟨text, ht⟩ := (foreign_window (n := blockHeaderEncodedSize)
    (image_empty hbase)).decodeBlockHeader
  rw [hf.header] at ht
  cases ht

theorem footer_missing : ∃ e,
    slotFooter env (image env size n) ((header env).written env) = .error e ∧ e.code = .corrupt := by
  have hroom := hr.room
  have hoff := hr.geometry.footerOffset_eq
  refine slotFooter_foreign (image_empty ?_)
  rw [base_zero, hoff]
  omega

/-- The second slot is blank. -/
theorem second_empty : (∃ e, slotHeader env (image env size n) 1 = .error e) ∧
    slotEvidence env (image env size n) 1 = false := by
  have hroom := hr.room
  have hend := hr.geometry.indexBegin_add
  have hbase : env.partitionBase 1 = 8192 + env.partitionSize := by
    show volumePrefixSize + 1 * env.partitionSize = _
    rw [Nat.one_mul]
    rfl
  have hb (o : Nat) : (image env size n).byte (env.partitionBase 1 + o) ≠ magicByte := by
    refine image_empty ?_
    simp only [partitionFooterRegionSize] at hend
    omega
  obtain ⟨e, he, -⟩ := slotHeader_foreign (hb 0)
  exact ⟨⟨e, he⟩, slotEvidence_foreign (hb 0) (hb _) (hb _)⟩

/-- The first partition passes strict verification and has `n` blocks. -/
theorem first_verified : StrictSlot env (image env size n) 0 ∧
    (slotScan env (image env size n) ((header env).written env)).entries.length = n := by
  obtain ⟨fs, st, hc, hlen, hcur, -, -, -, hdec⟩ := chain hr n (Nat.le_refl n)
  obtain ⟨e, hf, hcode⟩ := footer_missing hr
  have hslot : (0 : UInt32) < env.volume.partitionCount := by
    rw [hr.slots]
    decide
  obtain ⟨h1, h2⟩ := strictSlot_footerless hr.geometry hr.size hslot (header_found hr.geometry) hf
    (by rw [hcode]; decide) hc (stuck hcur) hdec
  refine ⟨h1, ?_⟩
  rw [h2, chainEntries_length, hlen]

theorem slot_cases {slot : UInt32} (h : slot < env.volume.partitionCount) : slot = 0 ∨ slot = 1 := by
  rw [hr.slots, UInt32.lt_iff_toNat_lt] at h
  have h2 : (2 : UInt32).toNat = 2 := rfl
  have : slot.toNat = 0 ∨ slot.toNat = 1 := by omega
  rcases this with h | h
  · exact Or.inl (UInt32.toNat_inj.mp h)
  · exact Or.inr (UInt32.toNat_inj.mp h)

theorem verified {slot : UInt32} (hs : slot < env.volume.partitionCount) :
    StrictSlot env (image env size n) slot := by
  rcases slot_cases hr hs with rfl | rfl
  · exact (first_verified hr).1
  · obtain ⟨⟨e, he⟩, hevidence⟩ := second_empty hr
    exact strictSlot_empty he hevidence

theorem states : slotStates env (image env size n) =
    [scannedState ((header env).written env)
      (slotScan env (image env size n) ((header env).written env))] := by
  obtain ⟨e, hf, -⟩ := footer_missing hr
  obtain ⟨⟨e, hsecond⟩, -⟩ := second_empty hr
  have hlist : slotList env = [0, 1] := by
    unfold slotList Env.partitionCount
    rw [hr.slots]
    rfl
  rw [slotStates, hlist, List.filterMap_cons_some (slotState_of_open (header_found hr.geometry) hf),
    List.filterMap_cons_none (slotState_of_error hsecond)]
  rfl

theorem generations : GenerationsOk (slotStates env (image env size n)) := by
  rw [states hr]
  refine ⟨fun p hp => ?_, by simp⟩
  rw [List.mem_singleton.mp hp, scannedState_header]
  show (1 : UInt64) ≠ 0
  decide

/-- Every one of these images opens under strict verification. -/
theorem opens (hcodecs : env.codecs = []) :
    Rd.run (imageSource (image env size n)) (recover size strict (.ok (0, 0))) =
      .ok (openedStore env (image env size n) strict (0, 0)) := by
  have hv : (encodeVolumeHeader env.volume).length = 256 := Item.bytes_volume_length env env.volume
  have hh := Item.bytes_header_length env (header env)
  refine recover_strict_isOk hr.geometry hr.size ?_ hcodecs.symm rfl rfl
    (fun slot hs => verified hr hs) (generations hr)
  refine run_readVolumeHeader hr.geometry hr.size ?_ ?_
  · unfold image
    rw [Image.window_write_out (Or.inl (by decide)), Image.window_write_out (Or.inl (by decide))]
    exact Image.window_write_same _ hv.symm
  · unfold image
    rw [Image.window_write_out (Or.inl (by decide))]
    exact Image.window_write_same _ hv.symm

theorem scan_length {slot : UInt32} (hs : slot < env.volume.partitionCount) {h : PartitionHeader}
    (hh : slotHeader env (image env size n) slot = .ok h) :
    (slotScan env (image env size n) h).entries.length = n := by
  rcases slot_cases hr hs with rfl | rfl
  · rw [header_found hr.geometry] at hh
    rw [← Except.ok.inj hh]
    exact (first_verified hr).2
  · obtain ⟨e, he⟩ := (second_empty hr).1
    rw [he] at hh
    cases hh

/-- The catalog of the image is its first partition, with its index. -/
theorem catalog : catalogOf env (image env size n) = [scannedState ((header env).written env)
    (slotScan env (image env size n) ((header env).written env))] := by
  unfold catalogOf
  rw [states hr, Sample.sort_single]
  rfl

end

end ManyBlocks

/-! ## A volume with room for more blocks than 32 bits count -/

namespace Terabyte

def options : VolumeOptions where
  partitionSize := 1099511636480
  indexRegionSize := 256
  maxBlockPayload := 128
  persistenceQuantum := 256

def size : Nat := 2199023281152

def volume : VolumeHeader where
  volumeIdHigh := 1
  volumeIdLow := 2
  volumeSize := 2199023281152
  partitionSize := 1099511636480
  partitionCount := 2
  indexRegionSize := 256
  maxBlockPayload := 128
  persistenceQuantum := 256

def env : Env := { volume := volume }

theorem formats : formatHeader size options (.ok (1, 2)) = .ok env.volume := by decide

theorem geometry : Geometry env := (formatHeader_geometry (by decide) (by decide) formats).1

theorem room {n : Nat} (hn : n ≤ 2 ^ 32 + 1) : ManyBlocks.Room env size n := by
  refine ⟨geometry, rfl, rfl, ?_, Nat.le_refl _⟩
  have hbegin : env.indexBegin = 1099511632128 := rfl
  rw [hbegin]
  omega

def image (n : Nat) : Image := ManyBlocks.image env size n

def opened (n : Nat) : Store := openedStore env (image n) ManyBlocks.strict (0, 0)

theorem opens {n : Nat} (hn : n ≤ 2 ^ 32 + 1) :
    Rd.run (imageSource (image n)) (recover (image n).size ManyBlocks.strict (.ok (0, 0))) =
      .ok (opened n) := ManyBlocks.opens (room hn) rfl

theorem retained {n : Nat} (hn : n ≤ 2 ^ 32 + 1) : ∃ p, (opened n).partitions = [p] ∧
    p.isSealed = false ∧ p.activeIndex.length = n := by
  refine ⟨_, ManyBlocks.catalog (room hn), scannedState_isSealed _ _, ?_⟩
  rw [scannedState_activeIndex]
  exact (ManyBlocks.first_verified (room hn)).2

end Terabyte

end TFDB
