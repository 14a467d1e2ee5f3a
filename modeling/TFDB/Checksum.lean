import TFDB.RustFormat

/-!
# The checksums agree

`crc32c_update` of the C++ library works from a table of 256 entries, one for each byte, that it
builds once.  The Rust reader works a bit at a time, which is the definition of the checksum.

* `crc32cTable`, `tableUpdate` — the table and the loop over it;
* `tableUpdate_eq` — one entry stands for eight bits, in every state;
* `checksums_agree` — so both are one function, which can be computed in pieces and with a field
  read as zero.
-/

set_option autoImplicit false

namespace TFDB

open ByteLib

/-- The table of `crc32c_update`. -/
def crc32cTable : Vector UInt32 256 :=
  Vector.ofFn fun i => (List.range 8).foldl (fun value _ => crcBit value) (UInt32.ofNat i)

theorem low_byte_lt (state : UInt32) : (state &&& 0xff).toNat < 256 := by
  have h : (state &&& 0xff).toNat ≤ 255 := by
    rw [UInt32.toNat_and]
    exact Nat.and_le_right
  omega

/-- One byte of the loop of `crc32c_update`. -/
def tableStep (state : UInt32) (b : UInt8) : UInt32 :=
  have h : ((state ^^^ b.toUInt32) &&& 0xff).toNat < 256 := low_byte_lt _
  crc32cTable[((state ^^^ b.toUInt32) &&& 0xff).toNat] ^^^ (state >>> 8)

def tableUpdate (state : UInt32) (bytes : Bytes) : UInt32 := bytes.foldl tableStep state

/-- The checksum of the definition, from any state. -/
def bitUpdate (state : UInt32) (bytes : Bytes) : UInt32 := bytes.foldl Rust.crcByte state

theorem crc32cTable_getElem (i : UInt32) (h : i.toNat < 256) :
    crc32cTable[i.toNat] = crcTable i := by
  rw [crc32cTable, Vector.getElem_ofFn, UInt32.ofNat_toNat]
  rfl

theorem tableStep_eq (state : UInt32) (b : UInt8) : tableStep state b = crcStep state b := by
  rw [tableStep, crc32cTable_getElem _ (low_byte_lt _), crcStep]

theorem tableUpdate_eq_crc32cUpdate (state : UInt32) (bytes : Bytes) :
    tableUpdate state bytes = crc32cUpdate state bytes := by
  have hstep : tableStep = crcStep := by
    funext state b
    exact tableStep_eq state b
  rw [tableUpdate, crc32cUpdate, hstep]

/-- A byte of the table is eight bits of the definition. -/
theorem tableUpdate_eq (state : UInt32) (bytes : Bytes) :
    tableUpdate state bytes = bitUpdate state bytes := by
  have hstep : crcStep = Rust.crcByte := by
    funext state b
    exact crcStep_eq state b
  rw [tableUpdate_eq_crc32cUpdate, crc32cUpdate, bitUpdate, hstep]

/-- A field of four bytes read as zero. -/
theorem zeroed_field {bytes : Bytes} {offset : Nat} (h : offset + 4 ≤ bytes.length) (i : Nat) :
    (put bytes offset (zeros 4))[i]? =
      if offset ≤ i ∧ i < offset + 4 then some 0 else bytes[i]? := by
  rw [getElem?_put (by rw [zeros_length]; exact h), zeros_length]
  split
  · rename_i hin
    rw [zeros, List.getElem?_replicate, if_pos (by omega)]
  · rfl

/-- **The checksums agree.**  For every byte string the table-driven checksum is the bit-by-bit one of
the Rust reader, and the two loops agree from every state; a string may be read in pieces; and with
the four bytes at an offset read as zero the checksum is that of the string with these bytes zeroed. -/
theorem checksums_agree :
    (∀ bytes, crc32cFinish (tableUpdate crc32cInit bytes) = Rust.crc32c bytes ∧
      crc32c bytes = Rust.crc32c bytes) ∧
    (∀ state bytes, crc32cUpdate state bytes = tableUpdate state bytes ∧
      tableUpdate state bytes = bitUpdate state bytes) ∧
    (∀ state a b, crc32cUpdate (crc32cUpdate state a) b = crc32cUpdate state (a ++ b)) ∧
    ∀ bytes offset, offset + 4 ≤ bytes.length → ∃ zeroed,
      crc32cWithZeroedField bytes offset = crc32c zeroed ∧ zeroed.length = bytes.length ∧
      ∀ i, zeroed[i]? = if offset ≤ i ∧ i < offset + 4 then some 0 else bytes[i]? := by
  refine ⟨fun bytes => ⟨?_, (Rust.crc32c_eq bytes).symm⟩, fun state bytes => ?_, ?_, ?_⟩
  · rw [tableUpdate_eq_crc32cUpdate, Rust.crc32c_eq]
    rfl
  · exact ⟨(tableUpdate_eq_crc32cUpdate state bytes).symm, tableUpdate_eq state bytes⟩
  · intro state a b
    exact (crc32cUpdate_append state a b).symm
  · intro bytes offset h
    refine ⟨put bytes offset (zeros 4), crc32cWithZeroedField_eq bytes offset, ?_, zeroed_field h⟩
    exact put_length (by rw [zeros_length]; exact h)

/-- The checksum of the test vector, by both. -/
example : Rust.crc32c [49, 50, 51, 52, 53, 54, 55, 56, 57] = 0xe3069283 := by decide +kernel

end TFDB
