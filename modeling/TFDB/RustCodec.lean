import TFDB.Bounded
import TFDB.RustFormat

/-!
# The decompressors of the Rust reader

`decompress_packbits` and `decompress_lz4_block` of the Rust reader, by positions: a panic (a slice
out of range, a sum or a difference that leaves the word, a capacity no vector has) ends in nothing
(`Lib/Access.lean`).

* `Rust.decompressPackbitsLoop_same`, `Rust.decompressLz4Loop_same` — neither loop panics, and each
  agrees with its C++ counterpart;
* `SameCalls` — two calls that reserve alike and then return alike;
* `decompressors_same` — the decoders of both readers are such calls;
* `huge_size_not_returned` — a size that no vector has ends both calls before the input is read.
-/

set_option autoImplicit false

namespace TFDB

open ByteLib

/-! ## The decoders -/

namespace Rust

/-- `Vec::with_capacity`.  It panics if no vector has the capacity, and a refused allocation ends the
process; the call returns in neither case. -/
def withCapacity (memory : Allocator) (capacity : Nat) : Option Unit :=
  if capacity > vectorMaxSize then none
  else if capacity = 0 ∨ memory capacity = true then some ()
  else none

/-- `Vec::resize`. -/
def resize (v : Bytes) (size : Nat) (value : UInt8) : Bytes :=
  v.take size ++ List.replicate (size - v.length) value

/-- The loop over the tokens; `none` is a panic. -/
def decompressPackbitsLoop (stored : Bytes) (rawSize : Nat) :
    Nat → Nat → Bytes → Option (Except Error Bytes)
  | 0, _, output => some (.ok output)
  | steps + 1, cursor, output =>
    if cursor < stored.length then do
      let token ← byteAt stored cursor
      let cursor ← addWord cursor 1
      if token ≤ 127 then
        let count := token.toNat + 1
        -- `checked_add`: a sum that does not fit is an error of the input, not a panic
        match addWord cursor count with
        | none => some (Error.corrupt "PackBits literal length overflow")
        | some last =>
          if last > stored.length ∨ count > rawSize - output.length then
            some (Error.corrupt "PackBits literal exceeds input or raw size")
          else
            let size ← subWord last cursor
            let bytes ← bytesAt stored cursor size
            decompressPackbitsLoop stored rawSize steps last (output ++ bytes)
      else
        let count := (token &&& 127).toNat + 3
        if cursor = stored.length ∨ count > rawSize - output.length then
          some (Error.corrupt "PackBits repeat exceeds input or raw size")
        else
          let value ← byteAt stored cursor
          let cursor ← addWord cursor 1
          let size ← addWord output.length count
          decompressPackbitsLoop stored rawSize steps cursor (resize output size value)
    else some (.ok output)

/-- Decode the bounded PackBits grammar. -/
def decompressPackbits (memory : Allocator) (stored : Bytes) (rawSize : Nat) :
    Option (Except Error Bytes) := do
  withCapacity memory rawSize
  match ← decompressPackbitsLoop stored rawSize stored.length 0 [] with
  | .error e => some (.error e)
  | .ok output =>
    if output.length ≠ rawSize then
      some (Error.corrupt "PackBits output size differs from block header")
    else some (.ok output)

def lz4MinMatch : Nat := 4
def lz4MaxExpansion : Nat := 255
def lz4LastLiterals : Nat := 5
def lz4MatchFindLimit : Nat := 12

/-- `lz4_read_length`: `None`, or the cursor and the length behind the bytes. -/
def lz4ReadLength (stored : Bytes) (limit : Nat) : Nat → Nat → Nat → Option (Option (Nat × Nat))
  | 0, _, _ => some none
  | steps + 1, cursor, length =>
    if cursor = stored.length then some none
    else do
      let extra ← byteAt stored cursor
      let cursor ← addWord cursor 1
      if length > limit then some none
      else
        let room ← subWord limit length
        if extra.toNat > room then some none
        else
          let length ← addWord length extra.toNat
          if extra ≠ 255 then some (some (cursor, length))
          else lz4ReadLength stored limit steps cursor length

/-- A nibble of the token, continued when it is saturated. -/
def lz4Nibble (stored : Bytes) (limit cursor nibble : Nat) : Option (Option (Nat × Nat)) :=
  if nibble = 15 then lz4ReadLength stored limit (stored.length + 1) cursor nibble
  else some (some (cursor, nibble))

/-- `lz4_reserve`. -/
def lz4Reserve (storedSize rawSize : Nat) : Nat :=
  if storedSize * lz4MaxExpansion + 32 < 2 ^ 64 then min (storedSize * lz4MaxExpansion + 32) rawSize
  else rawSize

/-- The copy of a match into the resized output, from its byte `i` on. -/
def lz4Copy (start distance : Nat) : Nat → Nat → Bytes → Option Bytes
  | 0, _, output => some output
  | steps + 1, i, output => do
    let base ← subWord start distance
    let source ← addWord base i
    let byte ← byteAt output source
    let target ← addWord start i
    let _ ← byteAt output target
    lz4Copy start distance steps (i + 1) (output.set target byte)

/-- The loop over the sequences; `none` is a panic. -/
def decompressLz4Loop (stored : Bytes) (rawSize : Nat) :
    Nat → Nat → Bytes → Option (Nat × Nat) → Option (Except Error (Bytes × Option (Nat × Nat)))
  | 0, _, output, lastMatch => some (.ok (output, lastMatch))
  | steps + 1, cursor, output, lastMatch =>
    if cursor < stored.length then do
      let token ← byteAt stored cursor
      let cursor ← addWord cursor 1
      match ← lz4Nibble stored rawSize cursor (token >>> 4).toNat with
      | none => some (Error.corrupt "invalid LZ4 literal length")
      | some (cursor, literals) =>
        let left ← subWord stored.length cursor
        let room ← subWord rawSize output.length
        if literals > left ∨ literals > room then
          some (Error.corrupt "LZ4 literals exceed input or raw size")
        else
          let next ← addWord cursor literals
          let bytes ← bytesAt stored cursor literals
          let output := output ++ bytes
          if next = stored.length then
            if token &&& 0x0f ≠ 0 then
              some (Error.corrupt "LZ4 final sequence announces a match")
            else some (.ok (output, lastMatch))
          else
            let left ← subWord stored.length next
            if left < 2 then some (Error.corrupt "truncated LZ4 match offset")
            else
              let low ← byteAt stored next
              let second ← addWord next 1
              let high ← byteAt stored second
              let cursor ← addWord next 2
              let distance := low.toNat ||| (high.toNat <<< 8)
              if distance = 0 ∨ distance > output.length then
                some (Error.corrupt "LZ4 match offset outside decoded output")
              else
                match ← lz4Nibble stored rawSize cursor (token &&& 0x0f).toNat with
                | none => some (Error.corrupt "invalid LZ4 match length")
                | some (cursor, length) =>
                  match addWord length lz4MinMatch with
                  | none => some (Error.corrupt "LZ4 match length overflow")
                  | some length =>
                    let room ← subWord rawSize output.length
                    if length > room then some (Error.corrupt "LZ4 match exceeds raw size")
                    else
                      let start := output.length
                      let size ← addWord start length
                      let output ← lz4Copy start distance length 0 (resize output size 0)
                      decompressLz4Loop stored rawSize steps cursor output
                        (some (start, output.length))
    else some (.ok (output, lastMatch))

/-- Decode the bounded LZ4 block grammar. -/
def decompressLz4Block (memory : Allocator) (stored : Bytes) (rawSize : Nat) :
    Option (Except Error Bytes) := do
  withCapacity memory (lz4Reserve stored.length rawSize)
  match ← decompressLz4Loop stored rawSize stored.length 0 [] none with
  | .error e => some (.error e)
  | .ok (output, lastMatch) =>
    if output.length ≠ rawSize then
      some (Error.corrupt "LZ4 output size differs from block header")
    else
      match lastMatch with
      | none => some (.ok output)
      | some (first, last) =>
        let behind ← subWord rawSize last
        let matched ← subWord rawSize first
        if behind < lz4LastLiterals ∨ matched < lz4MatchFindLimit then
          some (Error.corrupt "LZ4 last match violates the block parsing restrictions")
        else some (.ok output)

end Rust

/-! ## Agreement -/

/-- The Rust decoder ends, and both decoders fail as corrupt or both succeed with one result. -/
def SameOutcome {α : Type} (c : Except Status α) (r : Option (Except Rust.Error α)) : Prop :=
  (∃ a, c = .ok a ∧ r = some (.ok a)) ∨
  ∃ e e', c = .error e ∧ r = some (.error e') ∧ e.code = .corrupt ∧ e'.kind = .corrupt

theorem SameOutcome.ok {α : Type} (a : α) : SameOutcome (.ok a) (some (.ok a)) :=
  .inl ⟨a, rfl, rfl⟩

theorem SameOutcome.corrupt {α : Type} (s t : String) :
    SameOutcome (α := α) (failWith .corrupt s) (some (Rust.Error.corrupt t)) :=
  .inr ⟨_, _, rfl, rfl, rfl, rfl⟩

/-- The memory is granted. -/
def Grants (memory : Allocator) (size : Nat) : Prop := size = 0 ∨ memory size = true

/-- Two calls that first reserve `size` bytes.  They return where a vector has this size and the
memory is granted, and then they fail as corrupt or succeed with one result, both of them. -/
structure SameCalls (size : Nat) (c : Allocator → Except Exception (Except Status Bytes))
    (r : Allocator → Option (Except Rust.Error Bytes)) : Prop where
  tooLong : vectorMaxSize < size → ∀ memory, c memory = .error .lengthError ∧ r memory = none
  refused : size ≤ vectorMaxSize → ∀ memory, ¬ Grants memory size →
    c memory = .error .badAlloc ∧ r memory = none
  granted : size ≤ vectorMaxSize → ∃ x y, SameOutcome x y ∧
    ∀ memory, Grants memory size → c memory = .ok x ∧ r memory = y

/-- The reservation decides whether the calls return, what follows it what they return. -/
theorem SameCalls.of_outcome {size : Nat} {x : Except Status Bytes}
    {y : Option (Except Rust.Error Bytes)} (h : SameOutcome x y) :
    SameCalls size (fun memory => do reserve memory size; return x)
      (fun memory => do Rust.withCapacity memory size; y) where
  tooLong := by
    intro hlong memory
    simp only [reserve, Rust.withCapacity, if_pos hlong]
    exact ⟨rfl, rfl⟩
  refused := by
    intro hfits memory hno
    unfold Grants at hno
    simp only [reserve, Rust.withCapacity, if_neg (Nat.not_lt.mpr hfits), if_neg hno]
    exact ⟨rfl, rfl⟩
  granted := by
    intro hfits
    refine ⟨x, y, h, fun memory hyes => ?_⟩
    unfold Grants at hyes
    simp only [reserve, Rust.withCapacity, if_neg (Nat.not_lt.mpr hfits), if_pos hyes]
    exact ⟨rfl, rfl⟩

theorem reserve_ample {size : Nat} (h : size ≤ vectorMaxSize) : reserve ample size = .ok () := by
  rw [reserve, if_neg (Nat.not_lt.mpr h), if_pos (.inr rfl)]

theorem PackBitsCodec.decompress_ample (stored : Bytes) {rawSize : Nat} (h : rawSize ≤ vectorMaxSize) :
    PackBitsCodec.decompress ample stored rawSize = .ok (PackBits.decompress stored rawSize) := by
  rw [PackBitsCodec.decompress, reserve_ample h]
  rfl

theorem Lz4.outputReserve_le (storedSize rawSize : Nat) :
    Lz4.outputReserve storedSize rawSize ≤ rawSize := by
  unfold Lz4.outputReserve
  split
  · exact Nat.le_refl _
  · exact Nat.min_le_right ..

theorem Lz4BlockCodec.decompress_ample (stored : Bytes) {rawSize : Nat} (h : rawSize ≤ vectorMaxSize) :
    Lz4BlockCodec.decompress ample stored rawSize = .ok (Lz4.decompress stored rawSize) := by
  rw [Lz4BlockCodec.decompress, reserve_ample (Nat.le_trans (Lz4.outputReserve_le ..) h)]
  rfl

/-- With enough memory the calls return alike. -/
theorem SameCalls.returned {size : Nat} {x : Except Status Bytes}
    {c : Allocator → Except Exception (Except Status Bytes)}
    {r : Allocator → Option (Except Rust.Error Bytes)} (h : SameCalls size c r)
    (hsize : size ≤ vectorMaxSize) (hx : c ample = .ok x) : SameOutcome x (r ample) := by
  obtain ⟨x', y, hsame, hall⟩ := h.granted hsize
  obtain ⟨hc, hr⟩ := hall ample (.inr rfl)
  rw [hc] at hx
  rw [hr, ← Except.ok.inj hx]
  exact hsame

/-! ## PackBits -/

theorem literal_token_iff : ∀ token : UInt8, token ≤ 127 ↔ token &&& 0x80 = 0 := by
  intro token
  have h : ∀ n < 256, UInt8.ofNat n ≤ 127 ↔ UInt8.ofNat n &&& 0x80 = 0 := by decide +kernel
  have := h token.toNat token.toNat_lt
  rwa [UInt8.ofNat_toNat] at this

theorem Rust.resize_longer (v : Bytes) (n : Nat) (value : UInt8) :
    Rust.resize v (v.length + n) value = v ++ List.replicate n value := by
  rw [Rust.resize, List.take_of_length_le (by omega), Nat.add_sub_cancel_left]

theorem Rust.decompressPackbitsLoop_same {stored : Bytes} {rawSize : Nat}
    (hstored : stored.length < 2 ^ 64) (hsize : rawSize < 2 ^ 64) (steps : Nat) {cursor : Nat}
    {rest output : Bytes} (hat : At stored cursor rest) (hout : output.length ≤ rawSize) :
    SameOutcome (PackBits.decompressLoop rawSize steps rest output)
      (Rust.decompressPackbitsLoop stored rawSize steps cursor output) := by
  induction steps generalizing cursor rest output with
  | zero => exact .ok _
  | succ steps ih =>
    rw [Rust.decompressPackbitsLoop]
    cases rest with
    | nil =>
      rw [if_neg (by rw [hat.lt_iff]; simp)]
      exact .ok _
    | cons token rest =>
      have hlen := hat.length
      rw [List.length_cons] at hlen
      obtain ⟨hbyte, hnext⟩ := hat.next
      rw [if_pos (by omega), PackBits.decompressLoop, hbyte, checked_bind]
      rw [addWord_eq (by omega), checked_bind]
      by_cases htoken : token ≤ 127
      · rw [if_pos htoken, if_pos ((literal_token_iff token).mp htoken)]
        dsimp only
        by_cases hroom : token.toNat + 1 > rest.length ∨ token.toNat + 1 > rawSize - output.length
        · -- the sum of the Rust decoder either does not fit or leaves the input
          rw [if_pos hroom]
          by_cases hfits : cursor + 1 + (token.toNat + 1) < 2 ^ 64
          · rw [addWord_eq hfits]
            dsimp only
            rw [if_pos (by omega)]
            exact .corrupt _ _
          · rw [addWord, if_neg hfits]
            exact .corrupt _ _
        · obtain ⟨hbytes, hskip⟩ := hnext.skip (n := token.toNat + 1) (by omega)
          rw [if_neg hroom, addWord_eq (by omega)]
          dsimp only
          rw [if_neg (by omega), subWord_eq (by omega), checked_bind, Nat.add_sub_cancel_left]
          rw [hbytes, checked_bind]
          refine ih hskip ?_
          rw [List.length_append, List.length_take]
          omega
      · rw [if_neg htoken, if_neg (fun h => htoken ((literal_token_iff token).mpr h))]
        dsimp only
        cases rest with
        | nil =>
          rw [if_pos (.inl (hnext.done_iff.mpr rfl))]
          exact .corrupt _ _
        | cons b rest =>
          rw [List.length_cons] at hlen
          obtain ⟨hvalue, hafter⟩ := hnext.next
          dsimp only
          by_cases hroom : (token &&& 0x7f).toNat + 3 > rawSize - output.length
          · rw [if_pos hroom, if_pos (.inr hroom)]
            exact .corrupt _ _
          · rw [if_neg hroom, if_neg (by omega)]
            rw [hvalue, checked_bind]
            rw [addWord_eq (by omega), checked_bind]
            rw [addWord_eq (by omega), checked_bind, Rust.resize_longer]
            refine ih hafter ?_
            rw [List.length_append, List.length_replicate]
            omega

/-- **PackBits.** -/
theorem Rust.decompressPackbits_same {stored : Bytes} {rawSize : Nat}
    (hstored : stored.length < 2 ^ 64) (hsize : rawSize < 2 ^ 64) :
    SameCalls rawSize (PackBitsCodec.decompress · stored rawSize)
      (Rust.decompressPackbits · stored rawSize) := by
  refine SameCalls.of_outcome ?_
  unfold PackBits.decompress
  obtain ⟨output, hc, hr⟩ | ⟨e, e', hc, hr, he, he'⟩ :=
    Rust.decompressPackbitsLoop_same hstored hsize stored.length (At.start stored)
      (show ([] : Bytes).length ≤ rawSize from Nat.zero_le _)
  · rw [hc, hr, checked_bind]
    simp only [bind, Except.bind]
    split
    · exact .corrupt _ _
    · exact .ok _
  · rw [hc, hr, checked_bind]
    exact .inr ⟨e, e', rfl, rfl, he, he'⟩

/-! ## LZ4 -/

theorem Rust.lz4ReadLength_eq (stored : Bytes) (limit steps cursor length : Nat) :
    Rust.lz4ReadLength stored limit steps cursor length =
      Lz4.readLengthAt stored limit steps cursor length := by
  induction steps generalizing cursor length with
  | zero => rfl
  | succ steps ih => simp only [Rust.lz4ReadLength, Lz4.readLengthAt, ih]

theorem Rust.lz4Nibble_eq (stored : Bytes) (limit cursor nibble : Nat) :
    Rust.lz4Nibble stored limit cursor nibble = Lz4.nibbleLengthAt stored limit cursor nibble := by
  rw [Rust.lz4Nibble, Lz4.nibbleLengthAt, Rust.lz4ReadLength_eq]

theorem high_nibble (token : UInt8) : (token >>> 4).toNat = token.toNat / 16 := by
  rw [UInt8.toNat_shiftRight]
  show token.toNat >>> 4 = _
  rw [Nat.shiftRight_eq_div_pow]

theorem low_nibble (token : UInt8) : (token &&& 0x0f).toNat = token.toNat % 16 := by
  rw [UInt8.toNat_and]
  exact Nat.and_two_pow_sub_one_eq_mod token.toNat 4

theorem low_nibble_zero (token : UInt8) : token &&& 0x0f = 0 ↔ token.toNat % 16 = 0 := by
  rw [← low_nibble, ← UInt8.toNat_inj]
  rfl

theorem offset_bytes (low high : UInt8) :
    low.toNat ||| (high.toNat <<< 8) = low.toNat + 256 * high.toNat := by
  rw [Nat.or_comm, Nat.shiftLeft_eq, Nat.mul_comm, Nat.add_comm]
  exact (Nat.two_pow_add_eq_or_of_lt (b := low.toNat) low.toNat_lt high.toNat).symm

/-- The last byte of a copied match. -/
theorem Lz4.copyMatch_concat (distance n : Nat) (decoded : Bytes) :
    Lz4.copyMatch distance (n + 1) decoded = Lz4.copyMatch distance n decoded ++
      [(Lz4.copyMatch distance n decoded).getD (decoded.length + n - distance) 0] := by
  induction n generalizing decoded with
  | zero => rfl
  | succ n ih =>
    rw [Lz4.copyMatch, ih, Lz4.copyMatch, List.length_append, List.length_singleton,
      Nat.add_assoc, Nat.add_comm 1 n]

/-- The in-place copy: what is written so far is the match copied byte by byte, and what is left
is still zero. -/
theorem Rust.lz4Copy_eq {decoded : Bytes} {distance : Nat} (h0 : 1 ≤ distance)
    (hd : distance ≤ decoded.length) (n : Nat) {i : Nat} (hfits : decoded.length + i + n < 2 ^ 64) :
    Rust.lz4Copy decoded.length distance n i
        (Lz4.copyMatch distance i decoded ++ List.replicate n 0) =
      some (Lz4.copyMatch distance (i + n) decoded) := by
  induction n generalizing i with
  | zero =>
    rw [List.replicate_zero, List.append_nil]
    rfl
  | succ n ih =>
    have hcopied := Lz4.copyMatch_length distance i decoded
    have hnext := Lz4.copyMatch_concat distance i decoded
    generalize Lz4.copyMatch distance i decoded = copied at hcopied hnext ⊢
    have hsource : decoded.length - distance + i < copied.length := by omega
    have hread : byteAt (copied ++ List.replicate (n + 1) 0) (decoded.length - distance + i) =
        some (copied.getD (decoded.length + i - distance) 0) := by
      rw [byteAt, List.getElem?_append_left hsource, List.getD_eq_getElem?_getD,
        show decoded.length + i - distance = decoded.length - distance + i by omega,
        List.getElem?_eq_getElem hsource]
      rfl
    have htarget : byteAt (copied ++ List.replicate (n + 1) 0) (decoded.length + i) = some 0 := by
      rw [byteAt, List.getElem?_append_right (by omega), ← hcopied, Nat.sub_self]
      rfl
    have hset : ∀ byte : UInt8, (copied ++ List.replicate (n + 1) 0).set (decoded.length + i) byte =
        copied ++ [byte] ++ List.replicate n 0 := by
      intro byte
      rw [List.set_append_right _ _ (by omega), ← hcopied, Nat.sub_self, List.replicate_succ,
        List.set_cons_zero, List.append_assoc]
      rfl
    rw [Rust.lz4Copy, subWord_eq hd, checked_bind]
    rw [addWord_eq (by omega), checked_bind]
    rw [hread, checked_bind]
    rw [addWord_eq (by omega), checked_bind]
    rw [htarget, checked_bind]
    rw [hset, ← hnext, ih (by omega), Nat.add_assoc, Nat.add_comm 1 n]

/-- The loop. -/
theorem Rust.decompressLz4Loop_same {stored : Bytes} {rawSize : Nat}
    (hstored : stored.length < 2 ^ 64) (hsize : rawSize < 2 ^ 64) (steps : Nat) {cursor : Nat}
    {rest output : Bytes} {last : Lz4.LastMatch} (hat : At stored cursor rest)
    (hout : output.length ≤ rawSize) :
    SameOutcome (Lz4.decompressLoop rawSize steps rest output last)
      (Rust.decompressLz4Loop stored rawSize steps cursor output last) := by
  induction steps generalizing cursor rest output last with
  | zero => exact .ok _
  | succ steps ih =>
    rw [Rust.decompressLz4Loop]
    cases rest with
    | nil =>
      rw [if_neg (by rw [hat.lt_iff]; simp)]
      exact .ok _
    | cons token rest =>
      have hlen := hat.length
      rw [List.length_cons] at hlen
      obtain ⟨hbyte, hnext⟩ := hat.next
      rw [if_pos (by omega), Lz4.decompressLoop, hbyte, checked_bind]
      rw [addWord_eq (by omega), checked_bind]
      rw [Rust.lz4Nibble_eq, high_nibble]
      obtain ⟨hlit, hlitAt⟩ | ⟨literals, rest₁, cursor₁, hlit, hlitAt, hat₁⟩ :=
        Lz4.nibbleLengthAt_eq hstored hsize hnext (token.toNat / 16)
      · rw [hlitAt, hlit]
        exact .corrupt _ _
      rw [hlitAt, hlit, checked_bind]
      dsimp only
      have hlen₁ := hat₁.length
      rw [subWord_eq hat₁.bound, subWord_eq hout, checked_bind, checked_bind]
      rw [show stored.length - cursor₁ = rest₁.length by omega]
      split
      · exact .corrupt _ _
      rename_i hroom
      have htake : (rest₁.take literals).length = literals := by
        rw [List.length_take]
        omega
      obtain ⟨hbytes, hat₂⟩ := hat₁.skip (n := literals) (by omega)
      rw [addWord_eq (by omega), checked_bind]
      rw [hbytes, checked_bind]
      have hdec : (output ++ rest₁.take literals).length ≤ rawSize := by
        rw [List.length_append, htake]
        omega
      generalize output ++ rest₁.take literals = decoded at hdec ⊢
      cases hdrop : rest₁.drop literals with
      | nil =>
        rw [hdrop] at hat₂
        rw [if_pos (hat₂.done_iff.mpr rfl)]
        dsimp only
        by_cases hnone : token.toNat % 16 = 0
        · rw [if_neg (fun h => h hnone), if_neg (fun h => h ((low_nibble_zero token).mpr hnone))]
          exact .ok _
        · rw [if_pos hnone, if_pos (fun h => hnone ((low_nibble_zero token).mp h))]
          exact .corrupt _ _
      | cons low tail =>
        rw [hdrop] at hat₂
        have hlen₂ := hat₂.length
        rw [List.length_cons] at hlen₂
        have hmore : cursor₁ + literals ≠ stored.length := by omega
        cases tail with
        | nil =>
          rw [List.length_nil] at hlen₂
          dsimp only
          rw [if_neg hmore, subWord_eq hat₂.bound, checked_bind, if_pos (by omega)]
          exact .corrupt _ _
        | cons high rest₂ =>
          rw [List.length_cons] at hlen₂
          obtain ⟨hlow, hat₃⟩ := hat₂.next
          obtain ⟨hhigh, hat₄⟩ := hat₃.next
          have hpair : ¬ stored.length - (cursor₁ + literals) < 2 := by omega
          dsimp only
          rw [if_neg hmore, subWord_eq hat₂.bound, checked_bind, if_neg hpair]
          rw [hlow, checked_bind]
          rw [addWord_eq (by omega), checked_bind]
          rw [hhigh, checked_bind]
          rw [addWord_eq (by omega), checked_bind]
          rw [offset_bytes]
          split
          · exact .corrupt _ _
          rename_i hdist
          rw [Rust.lz4Nibble_eq, low_nibble]
          obtain ⟨hm, hmAt⟩ | ⟨length, rest₃, cursor₃, hm, hmAt, hat₅⟩ :=
            Lz4.nibbleLengthAt_eq hstored hsize hat₄ (token.toNat % 16)
          · rw [hmAt, hm]
            exact .corrupt _ _
          rw [hmAt, hm, checked_bind]
          dsimp only
          by_cases hover : length > sizeMax - Lz4.minMatch
          · rw [if_pos hover, addWord,
              if_neg (by simp only [sizeMax, Lz4.minMatch, Rust.lz4MinMatch] at *; omega)]
            exact .corrupt _ _
          rw [if_neg hover, show Rust.lz4MinMatch = Lz4.minMatch from rfl,
            addWord_eq (by simp only [sizeMax, Lz4.minMatch] at *; omega)]
          dsimp only
          rw [subWord_eq hdec, checked_bind]
          split
          · exact .corrupt _ _
          rename_i hfits
          rw [addWord_eq (by omega), checked_bind, Rust.resize_longer]
          have hcopy : Rust.lz4Copy decoded.length (low.toNat + 256 * high.toNat)
              (length + Lz4.minMatch) 0
              (decoded ++ List.replicate (length + Lz4.minMatch) 0) =
              some (Lz4.copyMatch (low.toNat + 256 * high.toNat) (length + Lz4.minMatch) decoded) := by
            have h := Rust.lz4Copy_eq (i := 0) (show 1 ≤ low.toNat + 256 * high.toNat by omega)
              (show _ ≤ decoded.length by omega) (length + Lz4.minMatch) (by omega)
            rwa [Nat.zero_add] at h
          rw [hcopy, checked_bind, Lz4.copyMatch_length]
          exact ih hat₅ (by rw [Lz4.copyMatch_length]; omega)

theorem lz4_reserve_eq (storedSize rawSize : Nat) :
    Rust.lz4Reserve storedSize rawSize = Lz4.outputReserve storedSize rawSize := by
  have hiff : storedSize * Rust.lz4MaxExpansion + 32 < 2 ^ 64 ↔
      ¬ storedSize > (sizeMax - 32) / 255 := by
    rw [Rust.lz4MaxExpansion, sizeMax]
    omega
  unfold Rust.lz4Reserve Lz4.outputReserve
  by_cases h : storedSize > (sizeMax - 32) / 255
  · rw [if_neg (fun hx => hiff.mp hx h), if_pos h]
  · rw [if_pos (hiff.mpr h), if_neg h]
    rfl

/-- **LZ4.** -/
theorem Rust.decompressLz4Block_same {stored : Bytes} {rawSize : Nat}
    (hstored : stored.length < 2 ^ 64) (hsize : rawSize < 2 ^ 64) :
    SameCalls (Lz4.outputReserve stored.length rawSize) (Lz4BlockCodec.decompress · stored rawSize)
      (Rust.decompressLz4Block · stored rawSize) := by
  unfold Rust.decompressLz4Block
  rw [lz4_reserve_eq]
  refine SameCalls.of_outcome ?_
  unfold Lz4.decompress
  have hloop : SameOutcome (Lz4.decompressLoop rawSize stored.length stored [] none)
      (Rust.decompressLz4Loop stored rawSize stored.length 0 [] none) :=
    Rust.decompressLz4Loop_same hstored hsize stored.length (At.start stored) (Nat.zero_le _)
  obtain ⟨r, hc, hr⟩ | ⟨e, e', hc, hr, he, he'⟩ := hloop
  · obtain ⟨output, last⟩ := r
    have hin := Lz4.decompressLoop_last_le hc (fun _ _ h => by cases h)
    dsimp only at hin
    rw [hc, hr, checked_bind]
    simp only [bind, Except.bind]
    split
    · exact .corrupt _ _
    rename_i hlen
    cases last with
    | none => exact .ok _
    | some p =>
      obtain ⟨first, last⟩ := p
      obtain ⟨h1, h2⟩ := hin first last rfl
      dsimp only
      rw [subWord_eq (by omega), subWord_eq (by omega), Option.bind_some, Option.bind_some]
      rw [show Rust.lz4LastLiterals = Lz4.lastLiterals from rfl,
        show Rust.lz4MatchFindLimit = Lz4.matchFindLimit from rfl]
      split
      · exact .corrupt _ _
      · exact .ok _
  · rw [hc, hr, checked_bind]
    exact .inr ⟨e, e', rfl, rfl, he, he'⟩

/-! ## The memory of the LZ4 decoder -/

/-- A byte behind a saturated nibble announces at most 255 bytes. -/
theorem Lz4.readLength_le {limit : Nat} {rest rest' : Bytes} {length length' : Nat}
    (h : Lz4.readLength limit length rest = some (length', rest')) :
    length' + 255 * rest'.length ≤ length + 255 * rest.length := by
  induction rest generalizing length with
  | nil => cases h
  | cons extra rest ih =>
    have hextra := extra.toNat_lt
    rw [Lz4.readLength] at h
    rw [List.length_cons]
    split at h
    · cases h
    split at h
    · obtain ⟨rfl, rfl⟩ := Prod.mk.inj (Option.some.inj h)
      omega
    · have := ih h
      omega

theorem Lz4.nibbleLength_le {limit nibble length : Nat} {rest rest' : Bytes} (hn : nibble ≤ 15)
    (h : Lz4.nibbleLength limit nibble rest = some (length, rest')) :
    length + 255 * rest'.length ≤ 15 + 255 * rest.length := by
  unfold Lz4.nibbleLength at h
  split at h
  · rename_i he
    have := Lz4.readLength_le h
    omega
  · obtain ⟨rfl, rfl⟩ := Prod.mk.inj (Option.some.inj h)
    omega

/-- A byte of input becomes at most 255 bytes of output. -/
theorem Lz4.decompressLoop_expansion {rawSize steps : Nat} {rest decoded output : Bytes}
    {last last' : Lz4.LastMatch}
    (h : Lz4.decompressLoop rawSize steps rest decoded last = .ok (output, last')) :
    output.length ≤ decoded.length + 255 * rest.length := by
  induction steps generalizing rest decoded last with
  | zero =>
    obtain ⟨rfl, -⟩ := Prod.mk.inj (Except.ok.inj h)
    exact Nat.le_add_right ..
  | succ steps ih =>
    cases rest with
    | nil =>
      obtain ⟨rfl, -⟩ := Prod.mk.inj (Except.ok.inj h)
      exact Nat.le_add_right ..
    | cons token rest =>
      have htoken := token.toNat_lt
      rw [Lz4.decompressLoop] at h
      rw [List.length_cons]
      split at h
      · cases h
      rename_i literals rest₁ hlit
      have h₁ := Lz4.nibbleLength_le (by omega) hlit
      have hdrop : (rest₁.drop literals).length = rest₁.length - literals := List.length_drop
      have htake : (rest₁.take literals).length ≤ literals := List.length_take_le ..
      split at h
      · cases h
      rename_i hroom
      dsimp only at h
      split at h
      · split at h
        · cases h
        · obtain ⟨rfl, -⟩ := Prod.mk.inj (Except.ok.inj h)
          rw [List.length_append]
          omega
      · cases h
      · rename_i low high rest₂ he
        rw [he, List.length_cons, List.length_cons] at hdrop
        split at h
        · cases h
        split at h
        · cases h
        rename_i length rest₃ hmatch
        have h₃ := Lz4.nibbleLength_le (by omega) hmatch
        split at h
        · cases h
        split at h
        · cases h
        have hout := ih h
        rw [Lz4.copyMatch_length, List.length_append] at hout
        rw [Lz4.minMatch] at hout
        omega

/-- An accepted output is that of the loop, and has the announced size. -/
theorem Lz4.decompress_ok {stored output : Bytes} {rawSize : Nat}
    (h : Lz4.decompress stored rawSize = .ok output) :
    (∃ last, Lz4.decompressLoop rawSize stored.length stored [] none = .ok (output, last)) ∧
      output.length = rawSize := by
  obtain ⟨⟨decoded, last⟩, hloop, hrest⟩ := bind_ok_inv h
  dsimp only at hrest
  split at hrest
  · cases hrest
  rename_i hlen
  have hsame : decoded = output := by
    cases last with
    | none => exact Except.ok.inj hrest
    | some p =>
      dsimp only at hrest
      split at hrest
      · cases hrest
      · exact Except.ok.inj hrest
  subst hsame
  exact ⟨⟨last, hloop⟩, not_not.mp hlen⟩

/-- The reservation holds whatever the decoder accepts. -/
theorem Lz4.decompress_reserved {stored output : Bytes} {rawSize : Nat}
    (h : Lz4.decompress stored rawSize = .ok output) :
    output.length ≤ Lz4.outputReserve stored.length rawSize := by
  obtain ⟨⟨last, hloop⟩, hlen⟩ := Lz4.decompress_ok h
  have hexpand := Lz4.decompressLoop_expansion hloop
  rw [List.length_nil] at hexpand
  unfold Lz4.outputReserve
  split
  · omega
  · omega

/-! ## Both readers -/

/-- **The two readers decompress alike.**  On every stored string and every raw size of a 64-bit
word: the PackBits decoders reserve the raw size, the LZ4 decoders as much of it as the input can
expand to.  If no vector has this size, the C++ call ends by `length_error` and the Rust call
panics; without the memory both end as well; in every other case both decoders of a format fail as
corrupt, or both succeed with the same bytes. -/
theorem decompressors_same (stored : Bytes) (hstored : stored.length < 2 ^ 64) (rawSize : Nat)
    (hraw : rawSize < 2 ^ 64) :
    SameCalls rawSize (PackBitsCodec.decompress · stored rawSize)
      (Rust.decompressPackbits · stored rawSize) ∧
    SameCalls (Lz4.outputReserve stored.length rawSize) (Lz4BlockCodec.decompress · stored rawSize)
      (Rust.decompressLz4Block · stored rawSize) ∧
    ∀ output, Lz4.decompress stored rawSize = .ok output →
      output.length ≤ Lz4.outputReserve stored.length rawSize :=
  ⟨Rust.decompressPackbits_same hstored hraw, Rust.decompressLz4Block_same hstored hraw,
    fun _ => Lz4.decompress_reserved⟩

/-- A run of twenty equal bytes. -/
theorem decompressors_same_run :
    SameOutcome (Lz4.decompress [0x1a, 97, 1, 0, 0x50, 97, 97, 97, 97, 97] 20)
      (Rust.decompressLz4Block ample [0x1a, 97, 1, 0, 0x50, 97, 97, 97, 97, 97] 20) ∧
    Lz4BlockCodec.decompress ample [0x1a, 97, 1, 0, 0x50, 97, 97, 97, 97, 97] 20 =
      .ok (.ok (List.replicate 20 97)) :=
  ⟨(decompressors_same _ (by decide) 20 (by decide)).2.1.returned (by decide)
    (Lz4BlockCodec.decompress_ample _ (by decide)), rfl⟩

/-- A run of three bytes, with a size that no vector has: neither call returns, however much memory there is. -/
theorem huge_size_not_returned :
    PackBitsCodec.decompress ample [0x80, 97] (2 ^ 63) = .error .lengthError ∧
      Rust.decompressPackbits ample [0x80, 97] (2 ^ 63) = none :=
  ⟨rfl, rfl⟩

end TFDB
