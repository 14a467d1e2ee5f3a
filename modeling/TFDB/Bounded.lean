import TFDB.Lib.Access
import TFDB.Sequences

/-!
# The bounds of the LZ4 decoder

`Lz4BlockCodec::decompress` by positions, with every read, every sum of sizes and every byte of
output checked (`Lib/Access.lean`).

* `Lz4.decompressAt` — the decoder;
* `Lz4.decompressAt_eq` — no check fails, and the result is that of `Lz4.decompress`;
* `lz4_decoder_exact` — so the decoder accepts exactly the streams of the grammar, inside its
  bounds.
-/

set_option autoImplicit false

namespace TFDB

open ByteLib

namespace Lz4

/-- `lz4_read_length`: `false`, or the position and the length behind the bytes. -/
def readLengthAt (stored : Bytes) (limit : Nat) : Nat → Nat → Nat → Option (Option (Nat × Nat))
  | 0, _, _ => some none
  | steps + 1, position, length =>
    if position = stored.length then some none
    else do
      let extra ← byteAt stored position
      let position ← addWord position 1
      if length > limit then some none
      else
        let room ← subWord limit length
        if extra.toNat > room then some none
        else
          let length ← addWord length extra.toNat
          if extra ≠ 255 then some (some (position, length))
          else readLengthAt stored limit steps position length

/-- A nibble, continued when it is saturated. -/
def nibbleLengthAt (stored : Bytes) (limit position nibble : Nat) : Option (Option (Nat × Nat)) :=
  if nibble = 15 then readLengthAt stored limit (stored.length + 1) position nibble
  else some (some (position, nibble))

/-- The copy of a match. -/
def copyMatchAt (limit distance : Nat) : Nat → Bytes → Option Bytes
  | 0, decoded => some decoded
  | n + 1, decoded => do
    let source ← subWord decoded.length distance
    let byte ← byteAt decoded source
    let decoded ← extend limit decoded [byte]
    copyMatchAt limit distance n decoded

def decompressLoopAt (stored : Bytes) (expectedSize : Nat) :
    Nat → Nat → Bytes → LastMatch → Option (Except Status (Bytes × LastMatch))
  | 0, _, decoded, last => some (.ok (decoded, last))
  | steps + 1, position, decoded, last =>
    if position < stored.length then do
      let token ← byteAt stored position
      let position ← addWord position 1
      match ← nibbleLengthAt stored expectedSize position (token.toNat / 16) with
      | none => some (failWith .corrupt "invalid LZ4 literal length")
      | some (position, literals) =>
        let left ← subWord stored.length position
        let room ← subWord expectedSize decoded.length
        if literals > left ∨ literals > room then
          some (failWith .corrupt "LZ4 literals exceed input or raw size")
        else
          let bytes ← bytesAt stored position literals
          let decoded ← extend expectedSize decoded bytes
          let position ← addWord position literals
          if position = stored.length then
            if token.toNat % 16 ≠ 0 then
              some (failWith .corrupt "LZ4 final sequence announces a match")
            else some (.ok (decoded, last))
          else
            let left ← subWord stored.length position
            if left < 2 then some (failWith .corrupt "truncated LZ4 match offset")
            else
              let low ← byteAt stored position
              let high ← byteAt stored (position + 1)
              let position ← addWord position 2
              let distance := low.toNat + 256 * high.toNat
              if distance = 0 ∨ distance > decoded.length then
                some (failWith .corrupt "LZ4 match offset outside decoded output")
              else
                match ← nibbleLengthAt stored expectedSize position (token.toNat % 16) with
                | none => some (failWith .corrupt "invalid LZ4 match length")
                | some (position, length) =>
                  if length > sizeMax - minMatch then
                    some (failWith .corrupt "LZ4 match length overflow")
                  else
                    let length ← addWord length minMatch
                    let room ← subWord expectedSize decoded.length
                    if length > room then some (failWith .corrupt "LZ4 match exceeds raw size")
                    else
                      let copied ← copyMatchAt expectedSize distance length decoded
                      decompressLoopAt stored expectedSize steps position copied
                        (some (decoded.length, copied.length))
    else some (.ok (decoded, last))

def decompressAt (stored : Bytes) (expectedSize : Nat) : Option (Except Status Bytes) := do
  match ← decompressLoopAt stored expectedSize stored.length 0 [] none with
  | .error e => some (.error e)
  | .ok (decoded, last) =>
    if decoded.length ≠ expectedSize then some (failWith .corrupt "LZ4 output size mismatch")
    else
      match last with
      | none => some (.ok decoded)
      | some (lastBegin, lastEnd) =>
        let behind ← subWord expectedSize lastEnd
        let matched ← subWord expectedSize lastBegin
        if behind < lastLiterals ∨ matched < matchFindLimit then
          some (failWith .corrupt "LZ4 last match breaks the parsing restrictions")
        else some (.ok decoded)

/-! ## No check fails -/

/-- The loop behind a saturated nibble, by positions. -/
theorem readLengthAt_eq {stored : Bytes} {limit : Nat} (hstored : stored.length < 2 ^ 64)
    (hlimit : limit < 2 ^ 64) (steps : Nat) {position length : Nat} {rest : Bytes}
    (hat : At stored position rest) (hsteps : rest.length < steps) :
    (readLength limit length rest = none ∧
      readLengthAt stored limit steps position length = some none) ∨
    ∃ n rest' position', readLength limit length rest = some (n, rest') ∧
      readLengthAt stored limit steps position length = some (some (position', n)) ∧
      At stored position' rest' := by
  induction steps generalizing position length rest with
  | zero => omega
  | succ steps ih =>
    rw [readLengthAt]
    cases rest with
    | nil =>
      rw [if_pos (hat.done_iff.mpr rfl)]
      exact .inl ⟨rfl, rfl⟩
    | cons extra rest =>
      have hlen := hat.length
      rw [List.length_cons] at hlen
      obtain ⟨hbyte, hnext⟩ := hat.next
      rw [if_neg (by omega), readLength, hbyte, checked_bind]
      rw [addWord_eq (by omega), checked_bind]
      by_cases hlong : length > limit
      · rw [if_pos hlong, if_pos (.inl hlong)]
        exact .inl ⟨rfl, rfl⟩
      rw [if_neg hlong, subWord_eq (by omega), checked_bind]
      by_cases hroom : extra.toNat > limit - length
      · rw [if_pos hroom, if_pos (.inr hroom)]
        exact .inl ⟨rfl, rfl⟩
      rw [if_neg hroom, if_neg (by omega), addWord_eq (by omega), checked_bind]
      split
      · exact .inr ⟨_, _, _, rfl, rfl, hnext⟩
      · rw [List.length_cons] at hsteps
        exact ih hnext (by omega)

theorem nibbleLengthAt_eq {stored : Bytes} {limit : Nat} (hstored : stored.length < 2 ^ 64)
    (hlimit : limit < 2 ^ 64) {position : Nat} {rest : Bytes} (hat : At stored position rest)
    (nibble : Nat) :
    (nibbleLength limit nibble rest = none ∧
      nibbleLengthAt stored limit position nibble = some none) ∨
    ∃ n rest' position', nibbleLength limit nibble rest = some (n, rest') ∧
      nibbleLengthAt stored limit position nibble = some (some (position', n)) ∧
      At stored position' rest' := by
  unfold nibbleLength nibbleLengthAt
  split
  · have hlen := hat.length
    exact readLengthAt_eq hstored hlimit _ hat (by omega)
  · exact .inr ⟨_, _, _, rfl, rfl, hat⟩

theorem copyMatchAt_eq {limit distance : Nat} (h0 : 1 ≤ distance) (n : Nat) {decoded : Bytes}
    (hd : distance ≤ decoded.length) (hroom : decoded.length + n ≤ limit) :
    copyMatchAt limit distance n decoded = some (copyMatch distance n decoded) := by
  induction n generalizing decoded with
  | zero => rfl
  | succ n ih =>
    have hbyte : byteAt decoded (decoded.length - distance) =
        some (decoded.getD (decoded.length - distance) 0) := by
      rw [byteAt, List.getD_eq_getElem?_getD, List.getElem?_eq_getElem (by omega)]
      rfl
    rw [copyMatchAt, subWord_eq hd, checked_bind]
    rw [hbyte, checked_bind]
    rw [extend_eq (by rw [List.length_singleton]; omega), checked_bind]
    rw [ih (by rw [List.length_append]; omega)
      (by rw [List.length_append, List.length_singleton]; omega)]
    rfl

/-- The loop, by positions. -/
theorem decompressLoopAt_eq {stored : Bytes} {expectedSize : Nat} (hstored : stored.length < 2 ^ 64)
    (hsize : expectedSize < 2 ^ 64) (steps : Nat) {position : Nat} {rest decoded : Bytes}
    {last : LastMatch} (hat : At stored position rest) (hd : decoded.length ≤ expectedSize) :
    decompressLoopAt stored expectedSize steps position decoded last =
      some (decompressLoop expectedSize steps rest decoded last) := by
  induction steps generalizing position rest decoded last with
  | zero => rfl
  | succ steps ih =>
    rw [decompressLoopAt]
    cases rest with
    | nil =>
      rw [if_neg (by rw [hat.lt_iff]; simp)]
      rfl
    | cons token rest =>
      have hlen := hat.length
      rw [List.length_cons] at hlen
      obtain ⟨hbyte, hnext⟩ := hat.next
      rw [if_pos (by omega), decompressLoop, hbyte, checked_bind]
      rw [addWord_eq (by omega), checked_bind]
      obtain ⟨hlit, hlitAt⟩ | ⟨literals, rest₁, position₁, hlit, hlitAt, hat₁⟩ :=
        nibbleLengthAt_eq hstored hsize hnext (token.toNat / 16)
      · rw [hlitAt, hlit]
        rfl
      rw [hlitAt, hlit, checked_bind]
      dsimp only
      have hlen₁ := hat₁.length
      rw [subWord_eq hat₁.bound, subWord_eq hd, checked_bind, checked_bind]
      rw [show stored.length - position₁ = rest₁.length by omega]
      split
      · rfl
      rename_i hroom
      have hroom₁ : literals ≤ rest₁.length := by omega
      have htake : (rest₁.take literals).length = literals := by
        rw [List.length_take]
        omega
      obtain ⟨hbytes, hat₂⟩ := hat₁.skip hroom₁
      rw [hbytes, checked_bind]
      rw [extend_eq (by rw [htake]; omega), checked_bind]
      rw [addWord_eq (by omega), checked_bind]
      have hdec : (decoded ++ rest₁.take literals).length ≤ expectedSize := by
        rw [List.length_append, htake]
        omega
      generalize decoded ++ rest₁.take literals = decoded₁ at hdec ⊢
      cases hdrop : rest₁.drop literals with
      | nil =>
        rw [hdrop] at hat₂
        rw [if_pos (hat₂.done_iff.mpr rfl)]
        dsimp only
        split <;> rfl
      | cons low tail₁ =>
        rw [hdrop] at hat₂
        have hlen₂ := hat₂.length
        rw [List.length_cons] at hlen₂
        rw [if_neg (by omega), subWord_eq hat₂.bound, checked_bind]
        cases htail : tail₁ with
        | nil =>
          rw [htail, List.length_nil] at hlen₂
          rw [if_pos (by omega)]
        | cons high rest₂ =>
          rw [htail] at hat₂ hlen₂
          rw [List.length_cons] at hlen₂
          obtain ⟨hlow, hat₃⟩ := hat₂.next
          obtain ⟨hhigh, hat₄⟩ := hat₃.next
          rw [if_neg (by omega), hlow, checked_bind]
          rw [hhigh, checked_bind]
          rw [addWord_eq (by omega), checked_bind]
          dsimp only
          split
          · rfl
          rename_i hdist
          obtain ⟨hm, hmAt⟩ | ⟨length, rest₃, position₃, hm, hmAt, hat₅⟩ :=
            nibbleLengthAt_eq hstored hsize hat₄ (token.toNat % 16)
          · rw [hmAt, hm]
            rfl
          rw [hmAt, hm, checked_bind]
          dsimp only
          split
          · rfl
          rename_i hover
          rw [addWord_eq (by simp only [sizeMax, minMatch] at *; omega), checked_bind]
          rw [subWord_eq hdec, checked_bind]
          split
          · rfl
          rename_i hfits
          rw [copyMatchAt_eq (by omega) _ (by omega) (by omega)]
          rw [checked_bind, copyMatch_length]
          exact ih hat₅ (by rw [copyMatch_length]; omega)

/-- The last match lies in the output. -/
theorem decompressLoop_last_le {expectedSize fuel : Nat} {s decoded : Bytes} {last : LastMatch}
    {r : Bytes × LastMatch} (h : decompressLoop expectedSize fuel s decoded last = .ok r)
    (hlast : ∀ matchBegin matchEnd, last = some (matchBegin, matchEnd) →
      matchBegin ≤ matchEnd ∧ matchEnd ≤ decoded.length) :
    ∀ matchBegin matchEnd, r.2 = some (matchBegin, matchEnd) →
      matchBegin ≤ matchEnd ∧ matchEnd ≤ r.1.length := by
  induction fuel generalizing s decoded last with
  | zero =>
    cases h
    exact hlast
  | succ fuel ih =>
    cases s with
    | nil =>
      cases h
      exact hlast
    | cons token rest =>
      rw [decompressLoop] at h
      split at h
      · cases h
      split at h
      · cases h
      dsimp only at h
      split at h
      · split at h
        · cases h
        · cases h
          intro matchBegin matchEnd hl
          obtain ⟨h1, h2⟩ := hlast matchBegin matchEnd hl
          refine ⟨h1, ?_⟩
          rw [List.length_append]
          omega
      · cases h
      · split at h
        · cases h
        split at h
        · cases h
        split at h
        · cases h
        split at h
        · cases h
        · refine ih h fun matchBegin matchEnd hl => ?_
          obtain ⟨rfl, rfl⟩ := Prod.mk.inj (Option.some.inj hl)
          rw [copyMatch_length]
          omega

/-- **No check of the decoder fails.** -/
theorem decompressAt_eq {stored : Bytes} {expectedSize : Nat} (hstored : stored.length < 2 ^ 64)
    (hsize : expectedSize < 2 ^ 64) :
    decompressAt stored expectedSize = some (decompress stored expectedSize) := by
  unfold decompressAt decompress
  rw [decompressLoopAt_eq hstored hsize stored.length (At.start stored) (Nat.zero_le _), checked_bind]
  cases hloop : decompressLoop expectedSize stored.length stored [] none with
  | error e => rfl
  | ok r =>
    obtain ⟨decoded, last⟩ := r
    have hin := decompressLoop_last_le hloop (fun _ _ h => by cases h)
    dsimp only at hin
    simp only [bind, Except.bind]
    split
    · rfl
    rename_i hlen
    cases last with
    | none => rfl
    | some p =>
      obtain ⟨lastBegin, lastEnd⟩ := p
      obtain ⟨h1, h2⟩ := hin lastBegin lastEnd rfl
      dsimp only
      rw [subWord_eq (by omega), subWord_eq (by omega), Option.bind_some, Option.bind_some]
      split <;> rfl

end Lz4

/-- **The LZ4 decoder accepts exactly the grammar.**  A stored string is accepted with an output if
and only if it is a stream whose matches start in the output before them and leave literals at the
end, and the output is what the stream means, of the announced size; every other string is corrupt.
No read of the decoder leaves the stored string, no sum or difference of sizes wraps and the output
never exceeds the announced size. -/
theorem lz4_decoder_exact (stored : Bytes) (hstored : stored.length < 2 ^ 64) (rawSize : Nat)
    (hraw : rawSize < 2 ^ 64) :
    (∀ output, Lz4.decompress stored rawSize = .ok output ↔
      (stored = [] ∧ output = [] ∧ rawSize = 0) ∨
      ∃ qs literals, Lz4.Stream qs literals stored ∧ Lz4.Reaching [] qs ∧
        Lz4.EndsInLiterals qs literals ∧ Lz4.interpret qs literals = output ∧
        output.length = rawSize) ∧
    (∀ e, Lz4.decompress stored rawSize = .error e → e.code = .corrupt) ∧
    Lz4.decompressAt stored rawSize = some (Lz4.decompress stored rawSize) := by
  refine ⟨fun output => Lz4.decompress_iff ?_, fun e => Lz4.decompress_error,
    Lz4.decompressAt_eq hstored hraw⟩
  rw [sizeMax]
  omega

/-- A literal, a match that repeats it and five literals. -/
theorem lz4_decoder_run :
    Lz4.decompressAt [0x14, 97, 1, 0, 0x50, 98, 99, 100, 101, 102] 14 =
      some (.ok [97, 97, 97, 97, 97, 97, 97, 97, 97, 98, 99, 100, 101, 102]) := by
  rw [(lz4_decoder_exact _ (by decide) 14 (by decide)).2.2]
  rfl

end TFDB
