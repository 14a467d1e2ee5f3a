import TFDB.Lib.Bytes

/-!
# CRC32C

The table-driven checksum of `internal_format.cpp`: reflected Castagnoli polynomial, initial
state and final xor all ones.  `crc32cUpdate_append` lets a caller checksum a structure in
pieces, which is how `crc32cWithZeroedField` reads a CRC field as zero.
-/

set_option autoImplicit false

namespace TFDB

open ByteLib

def crc32cInit : UInt32 := 0xffffffff

/-- One bit of the table computation. -/
def crcBit (value : UInt32) : UInt32 :=
  (value >>> 1) ^^^ (if value &&& 1 ≠ 0 then 0x82f63b78 else 0)

/-- Entry `i` of the table: eight bits. -/
def crcTable (i : UInt32) : UInt32 :=
  crcBit (crcBit (crcBit (crcBit (crcBit (crcBit (crcBit (crcBit i)))))))

def crcStep (state : UInt32) (b : UInt8) : UInt32 :=
  crcTable ((state ^^^ b.toUInt32) &&& 0xff) ^^^ (state >>> 8)

def crc32cUpdate (state : UInt32) (bytes : Bytes) : UInt32 := bytes.foldl crcStep state

def crc32cFinish (state : UInt32) : UInt32 := state ^^^ 0xffffffff

def crc32c (bytes : Bytes) : UInt32 := crc32cFinish (crc32cUpdate crc32cInit bytes)

/-- The checksum with the four bytes at `crcOffset` read as zero. -/
def crc32cWithZeroedField (bytes : Bytes) (crcOffset : Nat) : UInt32 :=
  let state := crc32cUpdate crc32cInit (bytes.take crcOffset)
  let state := crc32cUpdate state (zeros 4)
  crc32cFinish (crc32cUpdate state (bytes.drop (crcOffset + 4)))

theorem crc32cUpdate_append (state : UInt32) (a b : Bytes) :
    crc32cUpdate state (a ++ b) = crc32cUpdate (crc32cUpdate state a) b := by
  simp [crc32cUpdate]

theorem crc32cWithZeroedField_eq (bytes : Bytes) (crcOffset : Nat) :
    crc32cWithZeroedField bytes crcOffset = crc32c (put bytes crcOffset (zeros 4)) := by
  simp only [crc32cWithZeroedField, crc32c, put, crc32cUpdate_append, zeros_length]

end TFDB
