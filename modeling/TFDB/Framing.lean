import TFDB.Record
import TFDB.Inverse
import TFDB.RustFormat
import TFDB.Lib.Access

/-!
# The framing of records

`FramedRecordV1` cuts a block into frames: a header of 32 bytes with the size of the frame twice, a
checksum with a hole and the payload.

* `FramedRecord.frame_eq` — a frame is a field table closed by a checksum, like every structure of
  the format;
* `decodeRecord_frame`, `decodeRecord_inv` — the decoder reads a frame back, and reads nothing else;
* `Rust.decodeFramedV1` — the decoder of the Rust reader, by positions (`Lib/Access.lean`);
* `framing_exact` — blocks are exactly the concatenations of frames, for both decoders.
-/

set_option autoImplicit false

namespace TFDB

open ByteLib

/-! ## Frames -/

/-- The arguments of `encode`. -/
structure FramedRecord where
  time : Int64
  selector : UInt64
  flags : UInt16
  payload : Bytes
  deriving DecidableEq

namespace FramedRecord

def encode (r : FramedRecord) : Except Status Bytes :=
  FramedRecordV1.encode r.time r.selector r.flags r.payload

/-- The sizes fit their fields. -/
def Fits (r : FramedRecord) : Prop := r.payload.length ≤ 2 ^ 32 - 33

def fields (r : FramedRecord) : List (Nat × Bytes) :=
  [(0, put32 (UInt32.ofNat (32 + r.payload.length))), (4, put16 32), (6, put16 r.flags),
   (8, put64 r.time.toUInt64), (16, put64 r.selector),
   (24, put32 (UInt32.ofNat r.payload.length)), (32, r.payload)]

def frame (r : FramedRecord) : Bytes :=
  finishCrc (layout (32 + r.payload.length) 0 r.fields) 28

/-- What the visitor of the decoder is called with. -/
def view (r : FramedRecord) : RecordView where
  encoded := r.frame
  payload := r.payload
  indexTimeNs := r.time
  selector := r.selector
  flags := r.flags

def ofView (v : RecordView) : FramedRecord := ⟨v.indexTimeNs, v.selector, v.flags, v.payload⟩

@[simp] theorem ofView_view (r : FramedRecord) : ofView r.view = r := rfl

theorem fields_placed (r : FramedRecord) : Placed (32 + r.payload.length) 0 r.fields := by
  simp [fields, Placed]

@[simp] theorem frame_length (r : FramedRecord) : r.frame.length = 32 + r.payload.length :=
  record_length r.fields_placed (by omega)

/-- A frame is the field table with the payload as its last field. -/
theorem unchecked_eq (r : FramedRecord) :
    FramedRecordV1.unchecked r.time r.selector r.flags r.payload =
      layout (32 + r.payload.length) 0 r.fields := by
  simp [FramedRecordV1.unchecked, FramedRecordV1.headerSize, layout, fields, zeros]

theorem frame_eq {r : FramedRecord} (h : r.Fits) : r.encode = .ok r.frame := by
  have hlen := layout_length r.fields_placed
  have hhole : slice (layout (32 + r.payload.length) 0 r.fields) 28 4 = put32 0 :=
    slice_layout_gap r.fields_placed (by omega) (by
      simp only [fields, List.forall_mem_cons, put32_length, put16_length, put64_length]
      exact ⟨by omega, by omega, by omega, by omega, by omega, by omega, by omega,
        fun f hf => by cases hf⟩)
  have hcleared : put (layout (32 + r.payload.length) 0 r.fields) 28 (put32 0) =
      layout (32 + r.payload.length) 0 r.fields := by
    rw [← hhole]
    exact put_slice (by omega)
  unfold Fits at h
  unfold encode FramedRecordV1.encode
  rw [if_neg (by simp only [FramedRecordV1.headerSize]; omega), unchecked_eq, frame, finishCrc,
    hcleared]

/-- What `encode` returns. -/
theorem encode_inv {r : FramedRecord} {bs : Bytes} (h : r.encode = .ok bs) : r.Fits ∧ bs = r.frame := by
  by_cases hfits : r.Fits
  · rw [frame_eq hfits] at h
    exact ⟨hfits, (Except.ok.inj h).symm⟩
  · unfold Fits at hfits
    unfold encode FramedRecordV1.encode at h
    rw [if_pos (by simp only [FramedRecordV1.headerSize]; omega)] at h
    cases h

/-- A field of a frame, whatever follows the frame. -/
theorem slice_frame (r : FramedRecord) (rest : Bytes) {o k : Nat} {x : Bytes} (hm : (o, x) ∈ r.fields)
    (hk : k = x.length) (hd : o + k ≤ 28 ∨ 32 ≤ o) (hin : o + k ≤ 32 + r.payload.length) :
    slice (r.frame ++ rest) o k = x := by
  rw [slice_append_left (by rw [frame_length]; exact hin)]
  exact slice_record r.fields_placed (by omega) hm hk (by omega)

end FramedRecord

/-! ## The decoder -/

section
variable {bs : Bytes} {n o : Nat}

theorem get16_take (h : o + 2 ≤ n) : get16 (bs.take n) o = get16 bs o := by
  rw [get16, slice_take h, get16]

theorem get32_take (h : o + 4 ≤ n) : get32 (bs.take n) o = get32 bs o := by
  rw [get32, slice_take h, get32]

theorem get64_take (h : o + 8 ≤ n) : get64 (bs.take n) o = get64 bs o := by
  rw [get64, slice_take h, get64]

end

namespace FramedRecordV1

/-- The stored sign is the one of two's complement. -/
theorem decodeTime_eq (encoded : UInt64) : decodeTime encoded = encoded.toInt64 := by
  unfold decodeTime
  split
  · rfl
  · dsimp only
    split
    · rename_i hmag
      have hmin : encoded = 0x8000000000000000 := by
        apply UInt64.toBitVec_inj.mp
        have hbits := congrArg UInt64.toBitVec hmag
        simp only [UInt64.toBitVec_add, UInt64.toBitVec_not, UInt64.toBitVec_ofNat] at hbits ⊢
        bv_omega
      rw [hmin]
      rfl
    · apply Int64.toBitVec_inj.mp
      simp
      bv_omega

/-- A frame is read back, whatever follows it. -/
theorem decodeRecord_frame {r : FramedRecord} (h : r.Fits) (rest : Bytes) :
    decodeRecord (r.frame ++ rest) = .ok r.view := by
  unfold FramedRecord.Fits at h
  have hsize : get32 (r.frame ++ rest) 0 = UInt32.ofNat (32 + r.payload.length) :=
    get32_of_slice (r.slice_frame rest (by simp [FramedRecord.fields]) rfl (by omega) (by omega))
  have hheader : get16 (r.frame ++ rest) 4 = 32 :=
    get16_of_slice (r.slice_frame rest (by simp [FramedRecord.fields]) rfl (by omega) (by omega))
  have hflags : get16 (r.frame ++ rest) 6 = r.flags :=
    get16_of_slice (r.slice_frame rest (by simp [FramedRecord.fields]) rfl (by omega) (by omega))
  have htime : get64 (r.frame ++ rest) 8 = r.time.toUInt64 :=
    get64_of_slice (r.slice_frame rest (by simp [FramedRecord.fields]) rfl (by omega) (by omega))
  have hselector : get64 (r.frame ++ rest) 16 = r.selector :=
    get64_of_slice (r.slice_frame rest (by simp [FramedRecord.fields]) rfl (by omega) (by omega))
  have hpayload : get32 (r.frame ++ rest) 24 = UInt32.ofNat r.payload.length :=
    get32_of_slice (r.slice_frame rest (by simp [FramedRecord.fields]) rfl (by omega) (by omega))
  have hbytes : slice (r.frame ++ rest) 32 r.payload.length = r.payload :=
    r.slice_frame rest (by simp [FramedRecord.fields]) rfl (by omega) (by omega)
  have hlen := r.frame_length
  have hn : (UInt32.ofNat (32 + r.payload.length)).toNat = 32 + r.payload.length := by
    rw [UInt32.toNat_ofNat', Nat.mod_eq_of_lt (by omega)]
  have hm : (UInt32.ofNat r.payload.length).toNat = r.payload.length := by
    rw [UInt32.toNat_ofNat', Nat.mod_eq_of_lt (by omega)]
  have hframe : slice (r.frame ++ rest) 0 (32 + r.payload.length) = r.frame := by
    rw [slice_append_left (by omega), slice, List.drop_zero, List.take_of_length_le (by omega)]
  have hcrc : crc32cWithZeroedField r.frame 28 = get32 (r.frame ++ rest) 28 := by
    have hl := layout_length r.fields_placed
    rw [get32, slice_append_left (by omega), ← get32, FramedRecord.frame,
      crc32cWithZeroedField_finishCrc (by omega), get32_finishCrc (by omega)]
  unfold decodeRecord
  rw [if_neg (by rw [List.length_append, headerSize]; omega)]
  simp only [hsize, hheader, hpayload]
  rw [if_neg, hn, hm, hframe, if_neg (by rw [hcrc]; simp), headerSize, hbytes, htime, hselector,
    hflags, decodeTime_eq, Int64.toInt64_toUInt64]
  · rfl
  · -- the sizes are consistent
    rintro (hx | hx | hx | hx)
    · exact hx rfl
    · rw [UInt32.lt_iff_toNat_lt, hn] at hx
      have h32 : ((32 : UInt16).toUInt32).toNat = 32 := rfl
      omega
    · refine hx (UInt32.toNat_inj.mp ?_)
      rw [UInt32.toNat_add, hn, hm]
      have h32 : ((32 : UInt16).toUInt32).toNat = 32 := rfl
      omega
    · rw [hn, List.length_append] at hx
      omega

/-- Bytes with the fields of a frame, its sizes and its checksum are the frame of their fields. -/
theorem frame_of_fields {bs : Bytes} {n : Nat} (hl : bs.length = 32 + n)
    (hsize : get32 bs 0 = UInt32.ofNat (32 + n)) (hheader : get16 bs 4 = 32)
    (hpayload : get32 bs 24 = UInt32.ofNat n) (hcrc : crc32cWithZeroedField bs 28 = get32 bs 28) :
    (FramedRecord.mk (get64 bs 8).toInt64 (get64 bs 16) (get16 bs 6) (slice bs 32 n)).frame = bs := by
  have hlen : (slice bs 32 n).length = n := slice_length (by omega)
  have hk0 := @kept32 bs 28 0 (by omega) (by omega)
  have hk4 := @kept16 bs 28 4 (by omega) (by omega)
  have hk6 := @kept16 bs 28 6 (by omega) (by omega)
  have hk8 := @kept64 bs 28 8 (by omega) (by omega)
  have hk16 := @kept64 bs 28 16 (by omega) (by omega)
  have hk24 := @kept32 bs 28 24 (by omega) (by omega)
  rw [hsize] at hk0
  rw [hheader] at hk4
  rw [hpayload] at hk24
  rw [FramedRecord.frame, hlen]
  refine encode_of_fields ?_ hl (by omega) hcrc ?_ ?_
  · have hp := FramedRecord.fields_placed
      ⟨(get64 bs 8).toInt64, get64 bs 16, get16 bs 6, slice bs 32 n⟩
    rwa [hlen] at hp
  · simp only [FramedRecord.fields, hlen, List.forall_mem_cons]
    refine ⟨hk0, hk4, hk6, hk8, hk16, hk24, ⟨trivial, by omega⟩, fun f hf => by cases hf⟩
  · -- only the checksum lies between the fields
    intro i hi hgap
    simp only [FramedRecord.fields, List.forall_mem_cons, put32_length, put16_length, put64_length,
      hlen] at hgap
    omega

/-- Nothing but a frame is read. -/
theorem decodeRecord_inv {data : Bytes} {v : RecordView} (h : decodeRecord data = .ok v) :
    (FramedRecord.ofView v).Fits ∧ v = (FramedRecord.ofView v).view ∧
      data = v.encoded ++ data.drop v.encoded.length := by
  unfold decodeRecord at h
  split at h
  · cases h
  rename_i hlong
  rw [headerSize] at hlong
  dsimp only at h
  split at h
  · cases h
  rename_i hsizes
  push Not at hsizes
  obtain ⟨hheader, hmin, hsum, hroom⟩ := hsizes
  split at h
  · cases h
  rename_i hcrc
  rw [not_not] at hcrc
  cases h
  have h32 : ((32 : UInt16).toUInt32).toNat = 32 := rfl
  have hsize : (get32 data 0).toNat = 32 + (get32 data 24).toNat := by
    have hle := UInt32.le_iff_toNat_le.mp (UInt32.not_lt.mp hmin)
    have hs := congrArg UInt32.toNat hsum
    rw [hheader] at hle hs
    rw [UInt32.toNat_add, h32] at hs
    have h1 := (get32 data 0).toNat_lt
    have h2 := (get32 data 24).toNat_lt
    omega
  have hlt := (get32 data 0).toNat_lt
  rw [hsize] at hcrc hroom hlt
  generalize hn : (get32 data 24).toNat = n at hcrc hroom hlt hsize
  have hframe : slice data 0 (32 + n) = data.take (32 + n) := by rw [slice, List.drop_zero]
  have hlen : (data.take (32 + n)).length = 32 + n := by
    rw [List.length_take]
    omega
  have hbs : (FramedRecord.mk (get64 data 8).toInt64 (get64 data 16) (get16 data 6)
      (slice data 32 n)).frame = data.take (32 + n) := by
    have hkey := frame_of_fields hlen
    rw [get32_take (by omega), get16_take (by omega), get32_take (by omega), get32_take (by omega),
      get64_take (by omega), get64_take (by omega), get16_take (by omega),
      slice_take (by omega)] at hkey
    refine hkey ?_ hheader ?_ ?_
    · rw [← hsize, UInt32.ofNat_toNat]
    · rw [← hn, UInt32.ofNat_toNat]
    · rw [← hframe]
      exact hcrc
  refine ⟨?_, ?_, ?_⟩
  · show (slice data headerSize n).length ≤ 2 ^ 32 - 33
    rw [slice_length (by rw [headerSize]; omega)]
    omega
  · rw [FramedRecord.view, FramedRecord.ofView]
    dsimp only
    rw [hsize, hframe, decodeTime_eq, headerSize, hbs]
  · dsimp only
    rw [hsize, hframe, hlen, List.take_append_drop]

/-- The visitor that keeps every record. -/
def keepAll (seen : List RecordView) (record : RecordView) : List RecordView × Bool :=
  (seen ++ [record], true)

theorem decodeLoop_frames {rs : List FramedRecord} (h : ∀ r ∈ rs, r.Fits) (steps : Nat)
    (hsteps : (rs.flatMap FramedRecord.frame).length ≤ steps) (seen : List RecordView) :
    decodeLoop keepAll steps (rs.flatMap FramedRecord.frame) seen =
      (seen ++ rs.map FramedRecord.view, {}) := by
  induction rs generalizing steps seen with
  | nil =>
    rw [List.map_nil, List.append_nil]
    cases steps <;> rfl
  | cons r rs ih =>
    obtain ⟨hr, hrs⟩ := List.forall_mem_cons.mp h
    have hlen := r.frame_length
    rw [List.flatMap_cons, List.length_append] at hsteps
    cases steps with
    | zero => omega
    | succ steps =>
      have hne : r.frame ++ rs.flatMap FramedRecord.frame ≠ [] := by
        intro hx
        have hx := congrArg List.length hx
        rw [List.length_append, List.length_nil] at hx
        omega
      rw [List.flatMap_cons, decodeLoop, if_neg hne, decodeRecord_frame hr]
      dsimp only [keepAll]
      rw [show r.view.encoded = r.frame from rfl, List.drop_left, ih hrs steps (by omega)]
      rw [List.map_cons, List.append_assoc, List.singleton_append]

/-- **Frames are read back.** -/
theorem decodeBlock_frames {rs : List FramedRecord} (h : ∀ r ∈ rs, r.Fits) :
    decodeBlock keepAll (rs.flatMap FramedRecord.frame) [] = (rs.map FramedRecord.view, {}) := by
  rw [decodeBlock, decodeLoop_frames h _ (Nat.le_refl _), List.nil_append]

theorem decodeRecord_error {data : Bytes} {st : Status} (h : decodeRecord data = .error st) :
    st.code = .corrupt := by
  unfold decodeRecord at h
  split at h
  · cases h; rfl
  dsimp only at h
  split at h
  · cases h; rfl
  split at h
  · cases h; rfl
  · cases h

theorem decodeLoop_inv (steps : Nat) {data : Bytes} (hsteps : data.length ≤ steps)
    {seen views : List RecordView} {status : Status}
    (h : decodeLoop keepAll steps data seen = (views, status)) (hok : status.isOk) :
    ∃ rs : List FramedRecord, (∀ r ∈ rs, r.Fits) ∧ views = seen ++ rs.map FramedRecord.view ∧
      rs.flatMap FramedRecord.frame = data := by
  induction steps generalizing data seen with
  | zero =>
    cases h
    have hnil : data = [] := List.length_eq_zero_iff.mp (by omega)
    exact ⟨[], fun r hr => (by cases hr), (List.append_nil _).symm, hnil.symm⟩
  | succ steps ih =>
    rw [decodeLoop] at h
    split at h
    · rename_i hnil
      cases h
      exact ⟨[], fun r hr => (by cases hr), (List.append_nil _).symm, hnil.symm⟩
    cases hrec : decodeRecord data with
    | error st =>
      rw [hrec] at h
      cases h
      have hcode := decodeRecord_error hrec
      rw [Status.isOk, hcode] at hok
      cases hok
    | ok v =>
      rw [hrec] at h
      dsimp only [keepAll] at h
      obtain ⟨hfits, hv, hdata⟩ := decodeRecord_inv hrec
      have hlen : v.encoded.length = 32 + v.payload.length := by
        rw [hv]
        exact FramedRecord.frame_length _
      obtain ⟨rs, hrs, hviews, hrest⟩ := ih (by rw [List.length_drop]; omega) h
      refine ⟨FramedRecord.ofView v :: rs, List.forall_mem_cons.mpr ⟨hfits, hrs⟩, ?_, ?_⟩
      · rw [hviews, List.map_cons, ← hv, List.append_assoc, List.singleton_append]
      · have hframe : (FramedRecord.ofView v).frame = v.encoded :=
          (congrArg RecordView.encoded hv).symm
        rw [List.flatMap_cons, hrest, hframe]
        exact hdata.symm

/-- **Nothing but frames is read.** -/
theorem decodeBlock_inv {block : Bytes} (hok : (decodeBlock keepAll block []).2.isOk) :
    ∃ rs : List FramedRecord, (∀ r ∈ rs, r.Fits) ∧
      decodeBlock keepAll block [] = (rs.map FramedRecord.view, {}) ∧
      rs.flatMap FramedRecord.frame = block := by
  obtain ⟨rs, hrs, -, hblock⟩ := decodeLoop_inv block.length (Nat.le_refl _) rfl hok
  refine ⟨rs, hrs, ?_, hblock⟩
  rw [← hblock]
  exact decodeBlock_frames hrs

end FramedRecordV1

/-! ## The Rust decoder -/

namespace Rust

/-- `from_le_bytes` of a slice. -/
def u16At (bytes : Bytes) (i : Nat) : Option UInt16 := do
  let b ← bytesAt bytes i 2
  some (UInt16.ofNat (leNat b))

def u32At (bytes : Bytes) (i : Nat) : Option UInt32 := do
  let b ← bytesAt bytes i 4
  some (UInt32.ofNat (leNat b))

def u64At (bytes : Bytes) (i : Nat) : Option UInt64 := do
  let b ← bytesAt bytes i 8
  some (UInt64.ofNat (leNat b))

/-- The loop of `decode_framed_v1`; a step consumes at least a header. -/
def decodeFramedLoop (block : Bytes) :
    Nat → Nat → List RecordView → Option (Except Error (List RecordView))
  | 0, _, result => some (.ok result)
  | steps + 1, offset, result =>
    if offset < block.length then do
      let left ← subWord block.length offset
      if left < 32 then some (Error.corrupt "truncated FramedRecordV1 header")
      else
        let bytes ← bytesAt block offset left
        let frameSize ← u32At bytes 0
        let headerSize ← u16At bytes 4
        let payloadSize ← u32At bytes 24
        match addWord headerSize.toNat payloadSize.toNat with
        | none => some (Error.corrupt "FramedRecordV1 size overflow")
        | some expectedSize =>
          if headerSize ≠ 32 ∨ frameSize.toNat ≠ expectedSize ∨ frameSize.toNat > bytes.length then
            some (Error.corrupt "invalid FramedRecordV1 bounds")
          else
            let encoded ← bytesAt bytes 0 frameSize.toNat
            let expectedCrc ← u32At encoded 28
            let _ ← bytesAt encoded 28 4
            let checked := put encoded 28 (zeros 4)
            if crc32c checked ≠ expectedCrc then
              some (Error.corrupt "FramedRecordV1 CRC32C mismatch")
            else
              let payloadEnd ← subWord encoded.length headerSize.toNat
              let payload ← bytesAt encoded headerSize.toNat payloadEnd
              let time ← u64At encoded 8
              let selector ← u64At encoded 16
              let flags ← u16At encoded 6
              let offset ← addWord offset frameSize.toNat
              decodeFramedLoop block steps offset (result ++ [⟨encoded, payload, time.toInt64,
                selector, flags⟩])
    else some (.ok result)

def decodeFramedV1 (block : Bytes) : Option (Except Error (List RecordView)) :=
  decodeFramedLoop block block.length 0 []

theorem u16At_eq {bs : Bytes} {o : Nat} (h : o + 2 ≤ bs.length) : u16At bs o = some (get16 bs o) := by
  rw [u16At, bytesAt, if_pos h, checked_bind, get16]

theorem u32At_eq {bs : Bytes} {o : Nat} (h : o + 4 ≤ bs.length) : u32At bs o = some (get32 bs o) := by
  rw [u32At, bytesAt, if_pos h, checked_bind, get32]

theorem u64At_eq {bs : Bytes} {o : Nat} (h : o + 8 ≤ bs.length) : u64At bs o = some (get64 bs o) := by
  rw [u64At, bytesAt, if_pos h, checked_bind, get64]

theorem bytesAt_eq {bs : Bytes} {o k : Nat} (h : o + k ≤ bs.length) :
    bytesAt bs o k = some (slice bs o k) := if_pos h

/-- The bounds of the two decoders: the sum that wraps in 32 bits is below the header. -/
theorem bounds_iff (frameSize payloadSize : UInt32) (size : UInt16) (n : Nat) :
    (size ≠ 32 ∨ frameSize < size.toUInt32 ∨ frameSize ≠ size.toUInt32 + payloadSize ∨
      frameSize.toNat > n) ↔
    (size ≠ 32 ∨ frameSize.toNat ≠ size.toNat + payloadSize.toNat ∨ frameSize.toNat > n) := by
  by_cases hsize : size = 32
  · subst hsize
    have h32 : ((32 : UInt16).toUInt32).toNat = 32 := rfl
    have h16 : (32 : UInt16).toNat = 32 := rfl
    have h1 := frameSize.toNat_lt
    have h2 := payloadSize.toNat_lt
    rw [UInt32.lt_iff_toNat_lt, ← UInt32.toNat_inj.ne, UInt32.toNat_add, h32, h16]
    simp only [ne_eq, not_true_eq_false, false_or]
    omega
  · exact ⟨fun _ => .inl hsize, fun _ => .inl hsize⟩

/-- A turn of the loop is a turn of the C++ loop. -/
theorem decodeFramedLoop_turn {block rest : Bytes} (hblock : block.length < 2 ^ 64) {offset : Nat}
    (hat : At block offset rest) (hne : rest ≠ []) (steps : Nat) (result : List RecordView) :
    (∃ v, FramedRecordV1.decodeRecord rest = .ok v ∧
      decodeFramedLoop block (steps + 1) offset result =
        decodeFramedLoop block steps (offset + v.encoded.length) (result ++ [v])) ∨
    ∃ e e', FramedRecordV1.decodeRecord rest = .error e ∧
      decodeFramedLoop block (steps + 1) offset result = some (.error e') := by
  have hlen := hat.length
  rw [decodeFramedLoop, if_pos (hat.lt_iff.mpr hne), subWord_eq hat.bound, checked_bind]
  rw [show block.length - offset = rest.length by omega]
  by_cases hshort : rest.length < 32
  · rw [if_pos hshort, FramedRecordV1.decodeRecord, FramedRecordV1.headerSize, if_pos hshort]
    exact .inr ⟨_, _, rfl, rfl⟩
  obtain ⟨hrest, -⟩ := hat.skip (Nat.le_refl rest.length)
  rw [if_neg hshort, FramedRecordV1.decodeRecord, FramedRecordV1.headerSize, if_neg hshort]
  rw [hrest, checked_bind, List.take_length]
  rw [u32At_eq (by omega), checked_bind]
  rw [u16At_eq (by omega), checked_bind]
  rw [u32At_eq (by omega), checked_bind]
  have h1 := (get16 rest 4).toNat_lt
  have h2 := (get32 rest 24).toNat_lt
  rw [addWord_eq (by omega)]
  dsimp only
  have hbounds := bounds_iff (get32 rest 0) (get32 rest 24) (get16 rest 4) rest.length
  by_cases hbad : get16 rest 4 ≠ 32 ∨
      (get32 rest 0).toNat ≠ (get16 rest 4).toNat + (get32 rest 24).toNat ∨
      (get32 rest 0).toNat > rest.length
  · rw [if_pos hbad, if_pos (hbounds.mpr hbad)]
    exact .inr ⟨_, _, rfl, rfl⟩
  rw [if_neg hbad, if_neg (fun h => hbad (hbounds.mp h))]
  push Not at hbad
  obtain ⟨hheader, hsize, hroom⟩ := hbad
  have hn : (get16 rest 4).toNat = 32 := by rw [hheader]; rfl
  rw [hn] at hsize ⊢
  have hframe : slice rest 0 (get32 rest 0).toNat = rest.take (get32 rest 0).toNat := by
    rw [slice, List.drop_zero]
  have hflen : (rest.take (get32 rest 0).toNat).length = (get32 rest 0).toNat := by
    rw [List.length_take]
    omega
  rw [bytesAt_eq (by omega), checked_bind, hframe]
  rw [u32At_eq (by omega), checked_bind]
  rw [bytesAt_eq (by omega), checked_bind]
  rw [Rust.crc32c_eq, ← crc32cWithZeroedField_eq, get32_take (by omega)]
  by_cases hcrc : crc32cWithZeroedField (rest.take (get32 rest 0).toNat) 28 = get32 rest 28
  · rw [if_neg (fun h => h hcrc), if_neg (fun h => h hcrc)]
    refine .inl ⟨_, rfl, ?_⟩
    rw [hflen, subWord_eq (by omega), checked_bind]
    rw [bytesAt_eq (by omega), checked_bind]
    rw [u64At_eq (by omega), checked_bind]
    rw [u64At_eq (by omega), checked_bind]
    rw [u16At_eq (by omega), checked_bind]
    rw [addWord_eq (by omega), checked_bind]
    rw [slice_take (by omega), get64_take (by omega), get64_take (by omega), get16_take (by omega),
      FramedRecordV1.decodeTime_eq,
      show (get32 rest 0).toNat - 32 = (get32 rest 24).toNat by omega]
  · rw [if_pos hcrc, if_pos hcrc]
    exact .inr ⟨_, _, rfl, rfl⟩

theorem decodeFramedLoop_same {block : Bytes} (hblock : block.length < 2 ^ 64) (steps : Nat)
    {offset : Nat} {rest : Bytes} (hat : At block offset rest) (hsteps : rest.length ≤ steps)
    (result : List RecordView) :
    (∃ views, FramedRecordV1.decodeLoop FramedRecordV1.keepAll steps rest result = (views, {}) ∧
      decodeFramedLoop block steps offset result = some (.ok views)) ∨
    (¬ (FramedRecordV1.decodeLoop FramedRecordV1.keepAll steps rest result).2.isOk ∧
      ∃ e, decodeFramedLoop block steps offset result = some (.error e)) := by
  induction steps generalizing offset rest result with
  | zero => exact .inl ⟨_, rfl, rfl⟩
  | succ steps ih =>
    rw [FramedRecordV1.decodeLoop]
    by_cases hnil : rest = []
    · rw [if_pos hnil, decodeFramedLoop, if_neg (fun h => hat.lt_iff.mp h hnil)]
      exact .inl ⟨_, rfl, rfl⟩
    rw [if_neg hnil]
    obtain ⟨v, hrec, hturn⟩ | ⟨e, e', hrec, hturn⟩ :=
      decodeFramedLoop_turn hblock hat hnil steps result
    · obtain ⟨-, hv, hdata⟩ := FramedRecordV1.decodeRecord_inv hrec
      have hlong : v.encoded.length = 32 + v.payload.length := by
        rw [hv]
        exact FramedRecord.frame_length _
      have hle : v.encoded.length ≤ rest.length := by
        have h := congrArg List.length hdata
        rw [List.length_append] at h
        omega
      rw [hturn, hrec]
      dsimp only [FramedRecordV1.keepAll]
      exact ih (hat.skip hle).2 (by rw [List.length_drop]; omega) (result ++ [v])
    · rw [hturn, hrec]
      refine .inr ⟨?_, e', rfl⟩
      rw [Status.isOk, FramedRecordV1.decodeRecord_error hrec]
      decide

/-- **The Rust decoder** does not panic, and it accepts the blocks the C++ one accepts, with the
same records. -/
theorem decodeFramedV1_same {block : Bytes} (hblock : block.length < 2 ^ 64) :
    decodeFramedV1 block ≠ none ∧
    ∀ views, decodeFramedV1 block = some (.ok views) ↔
      (FramedRecordV1.decodeBlock FramedRecordV1.keepAll block []).2.isOk ∧
      (FramedRecordV1.decodeBlock FramedRecordV1.keepAll block []).1 = views := by
  have hloop := decodeFramedLoop_same hblock block.length (At.start block) (Nat.le_refl _) []
  rw [FramedRecordV1.decodeBlock, decodeFramedV1]
  obtain ⟨views, hc, hr⟩ | ⟨hc, e, hr⟩ := hloop
  · rw [hc, hr]
    refine ⟨by simp, fun views' => ⟨fun h => ?_, fun h => ?_⟩⟩
    · cases h
      exact ⟨rfl, rfl⟩
    · rw [show views = views' from h.2]
  · rw [hr]
    refine ⟨by simp, fun views' => ⟨fun h => ?_, fun h => absurd h.1 hc⟩⟩
    cases h

end Rust

/-! ## The framing -/

/-- **The framing is exact and unambiguous.**  The frames of any records that fit are decoded to
these records; a block that is decoded is the concatenation of the frames of its records, so that
no block is cut into records in two ways; and the Rust decoder accepts the same blocks with the
same records. -/
theorem framing_exact :
    (∀ rs : List FramedRecord, (∀ r ∈ rs, r.payload.length ≤ 2 ^ 32 - 33) →
      (∀ r ∈ rs, r.encode = .ok r.frame) ∧
      FramedRecordV1.decodeBlock FramedRecordV1.keepAll (rs.flatMap FramedRecord.frame) [] =
        (rs.map FramedRecord.view, {})) ∧
    (∀ block views status,
      FramedRecordV1.decodeBlock FramedRecordV1.keepAll block [] = (views, status) → status.isOk →
      (∀ v ∈ views, (FramedRecord.ofView v).encode = .ok v.encoded) ∧
      views.flatMap RecordView.encoded = block) ∧
    (∀ rs rs' : List FramedRecord, (∀ r ∈ rs, r.payload.length ≤ 2 ^ 32 - 33) →
      (∀ r ∈ rs', r.payload.length ≤ 2 ^ 32 - 33) →
      rs.flatMap FramedRecord.frame = rs'.flatMap FramedRecord.frame → rs = rs') ∧
    ∀ block : Bytes, block.length < 2 ^ 64 → Rust.decodeFramedV1 block ≠ none ∧
      ∀ views, Rust.decodeFramedV1 block = some (.ok views) ↔
        (FramedRecordV1.decodeBlock FramedRecordV1.keepAll block []).2.isOk ∧
        (FramedRecordV1.decodeBlock FramedRecordV1.keepAll block []).1 = views := by
  refine ⟨fun rs hrs => ⟨fun r hr => FramedRecord.frame_eq (hrs r hr),
    FramedRecordV1.decodeBlock_frames hrs⟩, ?_, ?_, fun block => Rust.decodeFramedV1_same⟩
  · intro block views status h hok
    obtain ⟨rs, hrs, hrun, hblock⟩ := FramedRecordV1.decodeBlock_inv (by rw [h]; exact hok)
    rw [h] at hrun
    obtain ⟨rfl, -⟩ := Prod.mk.inj hrun
    refine ⟨?_, ?_⟩
    · intro v hv
      obtain ⟨r, hr, rfl⟩ := List.mem_map.mp hv
      rw [FramedRecord.ofView_view]
      exact FramedRecord.frame_eq (hrs r hr)
    · rw [List.flatMap_map]
      exact hblock
  · intro rs rs' hrs hrs' heq
    have h := FramedRecordV1.decodeBlock_frames hrs
    have h' := FramedRecordV1.decodeBlock_frames hrs'
    rw [heq, h'] at h
    have hviews := congrArg (List.map FramedRecord.ofView) (Prod.mk.inj h).1
    simpa [List.map_map, Function.comp_def] using hviews.symm

end TFDB
