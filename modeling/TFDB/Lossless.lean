import TFDB.Codec

/-!
# The built-in codecs lose nothing

What a built-in codec makes of a block payload, its decoder turns back into the payload.

* `PackBits.decompress_compress` — by the groups of the input;
* `Lz4.decompress_compress` — the search loop only emits sequences that copy what the input
  holds at that place;
* `builtInCodec_lossless` — both, and the codec that stores the bytes as they are.
-/

set_option autoImplicit false

namespace TFDB

open ByteLib

/-! ## PackBits -/

namespace PackBits

theorem repeated_bounds (rest : Bytes) (h : rest ≠ []) :
    1 ≤ repeated rest ∧ repeated rest ≤ rest.length ∧ repeated rest ≤ 130 := by
  cases rest with
  | nil => exact absurd rfl h
  | cons b tail =>
    have h1 := (List.takeWhile_sublist (· == b) (l := tail.take 129)).length_le
    rw [List.length_take] at h1
    simp only [repeated, List.length_cons]
    omega

/-- The repeated bytes in front are a run. -/
theorem repeated_eq (b : UInt8) (tail : Bytes) :
    b :: tail = List.replicate (repeated (b :: tail)) b ++ (b :: tail).drop (repeated (b :: tail)) := by
  have hrun : (tail.take 129).takeWhile (· == b) =
      List.replicate ((tail.take 129).takeWhile (· == b)).length b := by
    refine List.eq_replicate_of_mem fun x hx => ?_
    simpa using List.all_eq_true.mp (List.all_takeWhile (p := (· == b)) (l := tail.take 129)) x hx
  have hpre : (tail.take 129).takeWhile (· == b) =
      tail.take ((tail.take 129).takeWhile (· == b)).length := by
    have h1 := List.takeWhile_prefix (· == b) (l := tail.take 129)
    exact List.prefix_iff_eq_take.mp (h1.trans (List.take_prefix 129 tail))
  have hn : repeated (b :: tail) = ((tail.take 129).takeWhile (· == b)).length + 1 := by
    rw [repeated, Nat.add_comm]
  rw [hn, List.replicate_succ, List.drop_succ_cons, List.cons_append, ← hrun]
  congr 1
  conv_lhs => rw [← List.take_append_drop ((tail.take 129).takeWhile (· == b)).length tail]
  rw [← hpre]

theorem literalCount_bounds (rest : Bytes) (steps : Nat) {count : Nat} (h1 : 1 ≤ count)
    (h2 : count ≤ rest.length) (h3 : count ≤ 128) :
    1 ≤ literalCount rest steps count ∧ literalCount rest steps count ≤ rest.length ∧
      literalCount rest steps count ≤ 128 := by
  induction steps generalizing count with
  | zero => exact ⟨h1, h2, h3⟩
  | succ steps ih =>
    rw [literalCount]
    split
    · rename_i hc
      have hne : rest.drop count ≠ [] := by
        rw [ne_eq, List.drop_eq_nil_iff]
        omega
      obtain ⟨-, hr, -⟩ := repeated_bounds _ hne
      rw [List.length_drop] at hr
      simp only
      split
      · exact ⟨h1, h2, h3⟩
      · exact ih (by omega) (by omega) (by omega)
    · exact ⟨h1, h2, h3⟩

theorem literal_token : ∀ n < 128, UInt8.ofNat n &&& 0x80 = 0 ∧ (UInt8.ofNat n).toNat = n := by
  decide

theorem run_token : ∀ n < 128, UInt8.ofNat (0x80 ||| n) &&& 0x80 ≠ 0 ∧
    (UInt8.ofNat (0x80 ||| n) &&& 0x7f).toNat = n := by
  decide

/-- Decoding the groups of `rest` adds `rest` to the output. -/
theorem decompressLoop_compressLoop {expectedSize : Nat} (steps : Nat) (rest : Bytes)
    (hsteps : rest.length ≤ steps) {fuel : Nat} {decoded : Bytes}
    (hfuel : (compressLoop steps rest).length ≤ fuel)
    (hroom : decoded.length + rest.length ≤ expectedSize) :
    decompressLoop expectedSize fuel (compressLoop steps rest) decoded = .ok (decoded ++ rest) := by
  induction steps generalizing rest fuel decoded with
  | zero =>
    obtain rfl : rest = [] := List.length_eq_zero_iff.mp (by omega)
    cases fuel <;> simp [compressLoop, decompressLoop]
  | succ steps ih =>
    cases rest with
    | nil => cases fuel <;> simp [compressLoop, decompressLoop]
    | cons b tail =>
      obtain ⟨r1, r2, r3⟩ := repeated_bounds (b :: tail) (List.cons_ne_nil _ _)
      rw [compressLoop] at hfuel ⊢
      simp only at hfuel ⊢
      split at hfuel
      · -- a run
        rename_i hrun
        rw [if_pos hrun]
        have hmin : min (repeated (b :: tail)) 130 = repeated (b :: tail) := Nat.min_eq_left r3
        rw [hmin] at hfuel ⊢
        obtain ⟨t1, t2⟩ := run_token (repeated (b :: tail) - 3) (by omega)
        have hdrop : ((b :: tail).drop (repeated (b :: tail))).length =
            (b :: tail).length - repeated (b :: tail) := List.length_drop ..
        obtain ⟨fuel, rfl⟩ : ∃ n, fuel = n + 1 := ⟨fuel - 1, by simp at hfuel; omega⟩
        rw [decompressLoop, if_neg t1]
        simp only [t2]
        rw [if_neg (by omega), ih _ (by omega) (by simp only [List.length_cons] at hfuel; omega) ?_]
        · rw [List.append_assoc]
          congr 2
          rw [show repeated (b :: tail) - 3 + 3 = repeated (b :: tail) by omega]
          exact (repeated_eq b tail).symm
        · rw [List.length_append, List.length_replicate, hdrop]
          omega
      · rename_i hrun
        rw [if_neg hrun]
        obtain ⟨c1, c2, c3⟩ := literalCount_bounds (b :: tail) 128 r1 r2 (by omega)
        generalize literalCount (b :: tail) 128 (repeated (b :: tail)) = count at hfuel c1 c2 c3 ⊢
        obtain ⟨t1, t2⟩ := literal_token (count - 1) (by omega)
        have hdrop : ((b :: tail).drop count).length = (b :: tail).length - count :=
          List.length_drop ..
        have htake : ((b :: tail).take count).length = count := by
          rw [List.length_take]
          omega
        obtain ⟨fuel, rfl⟩ : ∃ n, fuel = n + 1 := ⟨fuel - 1, by simp at hfuel; omega⟩
        have hcount : count - 1 + 1 = count := by omega
        rw [decompressLoop, if_pos t1]
        simp only [t2, hcount]
        rw [if_neg, List.drop_left' htake, List.take_left' htake,
          ih _ (by omega) (by simp only [List.length_cons, List.length_append] at hfuel; omega) ?_]
        · rw [List.append_assoc, List.take_append_drop]
        · rw [List.length_append, htake, hdrop]
          omega
        · rw [List.length_append, htake]
          omega

theorem decompress_compress (x : Bytes) {y : Bytes} (h : compress x = .ok y) :
    decompress y x.length = .ok x := by
  obtain rfl := Except.ok.inj h
  rw [decompress, decompressLoop_compressLoop x.length x (Nat.le_refl _) (Nat.le_refl _) (by simp)]
  simp [bind, Except.bind]

end PackBits

/-! ## LZ4 -/

namespace Lz4

/-- The bytes of a saturated length add up to it. -/
theorem readLength_writeLength {limit : Nat} (steps : Nat) {remaining length : Nat} (rest : Bytes)
    (hsteps : remaining < 255 * (steps + 1)) (hlimit : length + remaining ≤ limit) :
    readLength limit length (writeLength steps remaining ++ rest) = some (length + remaining, rest) := by
  have hlast (remaining length : Nat) (hlt : remaining < 255) (hlimit : length + remaining ≤ limit) :
      readLength limit length (UInt8.ofNat remaining :: rest) = some (length + remaining, rest) := by
    have hb : (UInt8.ofNat remaining).toNat = remaining := by
      rw [UInt8.toNat_ofNat']
      omega
    have hne : UInt8.ofNat remaining ≠ 255 := by
      intro he
      rw [he] at hb
      have h255 : (255 : UInt8).toNat = 255 := rfl
      omega
    rw [readLength, hb, if_neg (by omega), if_pos hne]
  induction steps generalizing remaining length with
  | zero => exact hlast remaining length (by omega) hlimit
  | succ steps ih =>
    rw [writeLength]
    split
    · rename_i hge
      have h255 : (255 : UInt8).toNat = 255 := rfl
      rw [List.cons_append, readLength, h255, if_neg (by omega), if_neg (fun h => h rfl),
        ih (by omega) (by omega), show length + 255 + (remaining - 255) = length + remaining by omega]
    · exact hlast remaining length (by omega) hlimit

/-- A nibble with its tail gives the length back. -/
theorem nibbleLength_lengthTail (limit : Nat) {n : Nat} (rest : Bytes) (h : n ≤ limit) :
    nibbleLength limit (lengthNibble n) (lengthTail n ++ rest) = some (n, rest) := by
  unfold nibbleLength lengthNibble lengthTail
  by_cases hn : n ≥ 15
  · rw [if_pos hn, if_pos rfl, if_pos hn, readLength_writeLength n rest (by omega) (by omega),
      show 15 + (n - 15) = n by omega]
  · rw [if_neg hn, if_neg (by omega), if_neg hn]
    rfl

theorem lengthNibble_lt (n : Nat) : lengthNibble n < 16 := by
  unfold lengthNibble
  split <;> omega

theorem token_nibbles {a b : Nat} (ha : a < 16) (hb : b < 16) :
    (UInt8.ofNat (a * 16 + b)).toNat / 16 = a ∧ (UInt8.ofNat (a * 16 + b)).toNat % 16 = b := by
  rw [UInt8.toNat_ofNat']
  omega

/-- The literals behind the last match end the stream. -/
theorem decompressLoop_last {expectedSize : Nat} {fuel : Nat} (literals decoded : Bytes)
    (last : LastMatch) (hroom : decoded.length + literals.length ≤ expectedSize) :
    decompressLoop expectedSize (fuel + 1) (emitLastLiterals literals) decoded last =
      .ok (decoded ++ literals, last) := by
  obtain ⟨t1, t2⟩ := token_nibbles (lengthNibble_lt literals.length) (b := 0) (by omega)
  rw [Nat.add_zero] at t1 t2
  have hlen := nibbleLength_lengthTail expectedSize literals
    (n := literals.length) (by omega)
  rw [emitLastLiterals, decompressLoop, t1, hlen]
  simp only
  rw [if_neg (by omega), List.drop_length, List.take_length]
  simp only [t2]
  rfl

/-- A sequence adds its literals and a copy to the output. -/
theorem decompressLoop_sequence {expectedSize fuel distance length : Nat}
    (literals decoded rest : Bytes) (last : LastMatch) (h0 : 0 < distance)
    (h1 : distance ≤ maxDistance) (h2 : distance ≤ decoded.length + literals.length)
    (h3 : minMatch ≤ length)
    (hroom : decoded.length + literals.length + length ≤ expectedSize) (hsize : expectedSize ≤ sizeMax) :
    decompressLoop expectedSize (fuel + 1) (emitSequence literals distance length ++ rest) decoded last =
      decompressLoop expectedSize fuel rest (copyMatch distance length (decoded ++ literals))
        (some (decoded.length + literals.length, decoded.length + literals.length + length)) := by
  simp only [minMatch, maxDistance] at h1 h3
  obtain ⟨t1, t2⟩ := token_nibbles (lengthNibble_lt literals.length)
    (lengthNibble_lt (length - minMatch))
  have hlow : (UInt8.ofNat (distance % 256)).toNat = distance % 256 := by
    rw [UInt8.toNat_ofNat']
    omega
  have hhigh : (UInt8.ofNat (distance / 256 % 256)).toNat = distance / 256 := by
    rw [UInt8.toNat_ofNat']
    omega
  have hdist : distance % 256 + 256 * (distance / 256) = distance := by omega
  have hlits := nibbleLength_lengthTail expectedSize (literals ++
    (UInt8.ofNat (distance % 256) :: UInt8.ofNat (distance / 256 % 256) ::
      (lengthTail (length - minMatch) ++ rest))) (n := literals.length) (by omega)
  have hmatch := nibbleLength_lengthTail expectedSize rest
    (n := length - minMatch) (by omega)
  have hlength : length - minMatch + minMatch = length := by
    simp only [minMatch]
    omega
  simp only [emitSequence, List.cons_append, List.append_assoc, List.nil_append]
  rw [decompressLoop, t1, hlits]
  simp only
  rw [if_neg (by simp only [List.length_append]; omega), List.drop_left, List.take_left]
  simp only [hlow, hhigh, hdist]
  rw [if_neg (by rw [List.length_append]; omega), t2, hmatch]
  simp only [hlength, List.length_append]
  rw [if_neg (by simp only [minMatch, sizeMax] at *; omega), if_neg (by omega)]

/-- A copy of bytes that agree extends a prefix of the data. -/
theorem copyMatch_take (data : Bytes) (position distance : Nat) (h0 : 0 < distance)
    (h1 : distance ≤ position) (n done : Nat) (hend : position + done + n ≤ data.length)
    (hagree : ∀ i, i < done + n → data.getD (position - distance + i) 0 = data.getD (position + i) 0) :
    copyMatch distance n (data.take (position + done)) = data.take (position + done + n) := by
  induction n generalizing done with
  | zero => rfl
  | succ n ih =>
    have hlen : (data.take (position + done)).length = position + done := by
      rw [List.length_take]
      omega
    have hbyte : (data.take (position + done)).getD (position + done - distance) 0 =
        data.getD (position + done) 0 := by
      rw [← hagree done (by omega), show position - distance + done = position + done - distance by omega]
      simp only [List.getD_eq_getElem?_getD]
      rw [List.getElem?_take_of_lt (by omega)]
    have hsnoc : data.take (position + done) ++ [data.getD (position + done) 0] =
        data.take (position + (done + 1)) := by
      have hlt : position + done < data.length := by omega
      rw [← Nat.add_assoc, List.take_add_one, List.getD_eq_getElem?_getD,
        List.getElem?_eq_getElem hlt]
      rfl
    rw [copyMatch, hlen, hbyte, hsnoc, ih _ (by omega) fun i hi => hagree i (by omega)]
    congr 1
    omega

theorem matchLength_spec (data : Bytes) (matchPos position matchLimit steps length : Nat)
    (hagree : ∀ i < length, data.getD (matchPos + i) 0 = data.getD (position + i) 0)
    (hend : position + length ≤ matchLimit) :
    length ≤ matchLength data matchPos position matchLimit steps length ∧
      position + matchLength data matchPos position matchLimit steps length ≤ matchLimit ∧
      ∀ i < matchLength data matchPos position matchLimit steps length,
        data.getD (matchPos + i) 0 = data.getD (position + i) 0 := by
  induction steps generalizing length with
  | zero => exact ⟨Nat.le_refl _, hend, hagree⟩
  | succ steps ih =>
    rw [matchLength]
    split
    · rename_i hc
      obtain ⟨i1, i2, i3⟩ := ih (length + 1) (by
        intro i hi
        rcases Nat.lt_succ_iff_lt_or_eq.mp hi with hi | rfl
        · exact hagree i hi
        · exact hc.2) (by omega)
      exact ⟨by omega, i2, i3⟩
    · exact ⟨Nat.le_refl _, hend, hagree⟩

/-- Equal words have equal bytes. -/
theorem load32_agree {data : Bytes} {a b : Nat} (ha : a + 4 ≤ data.length) (hb : b + 4 ≤ data.length)
    (h : load32 data a = load32 data b) : ∀ i < 4, data.getD (a + i) 0 = data.getD (b + i) 0 := by
  have hslice : slice data a 4 = slice data b 4 := by
    have hla := slice_length ha
    have hlb := slice_length hb
    have hva := leNat_lt (slice data a 4)
    have hvb := leNat_lt (slice data b 4)
    have h' := congrArg UInt32.toNat h
    simp only [load32, get32, UInt32.toNat_ofNat'] at h'
    rw [hla] at hva
    rw [hlb] at hvb
    exact leNat_inj (hla.trans hlb.symm) (by omega)
  intro i hi
  have hget (p : Nat) : (slice data p 4)[i]? = data[p + i]? := by
    rw [slice, List.getElem?_take_of_lt hi, List.getElem?_drop]
  rw [List.getD_eq_getElem?_getD, List.getD_eq_getElem?_getD, ← hget, ← hget, hslice]

/-- The bytes written so far decode to the data up to `anchor`, and the last match among them keeps
its distance from the end. -/
def Encodes (data encoded : Bytes) (anchor : Nat) : Prop :=
  ∃ steps last, steps ≤ encoded.length ∧
    (∀ fuel rest, decompressLoop data.length (steps + fuel) (encoded ++ rest) [] none =
      decompressLoop data.length fuel rest (data.take anchor) last) ∧
    ∀ matchBegin matchEnd, last = some (matchBegin, matchEnd) →
      lastLiterals ≤ data.length - matchEnd ∧ matchFindLimit ≤ data.length - matchBegin

theorem Encodes.nil (data : Bytes) : Encodes data [] 0 := by
  refine ⟨0, none, Nat.le_refl _, fun fuel rest => ?_, fun _ _ h => by cases h⟩
  rw [Nat.zero_add, List.nil_append]
  rfl

theorem Encodes.sequence {data encoded : Bytes} {anchor position matchPos length : Nat}
    (h : Encodes data encoded anchor) (hsize : data.length ≤ sizeMax) (ha : anchor ≤ position)
    (hp : position < data.length - matchFindLimit) (hm : matchPos < position)
    (hd : position - matchPos ≤ maxDistance) (hmin : minMatch ≤ length)
    (hend : position + length ≤ data.length - lastLiterals)
    (hagree : ∀ i < length, data.getD (matchPos + i) 0 = data.getD (position + i) 0) :
    Encodes data
      (encoded ++ emitSequence (slice data anchor (position - anchor)) (position - matchPos) length)
      (position + length) := by
  obtain ⟨steps, last, hsteps, hrun, -⟩ := h
  simp only [matchFindLimit, lastLiterals] at *
  have hanchor : (data.take anchor).length = anchor := by
    rw [List.length_take]
    omega
  have hlits : (slice data anchor (position - anchor)).length = position - anchor :=
    slice_length (by omega)
  have hjoin : data.take anchor ++ slice data anchor (position - anchor) = data.take position := by
    rw [slice, ← List.take_add]
    congr 1
    omega
  have hcopy := copyMatch_take data position (position - matchPos)
    (by omega) (by omega) length 0 (by omega) (by
      intro i hi
      rw [show position - (position - matchPos) + i = matchPos + i by omega]
      exact hagree i (by omega))
  refine ⟨steps + 1, some (position, position + length), ?_, fun fuel rest => ?_, ?_⟩
  · simp only [emitSequence, List.length_append, List.length_cons]
    omega
  · rw [List.append_assoc, show steps + 1 + fuel = steps + (fuel + 1) by omega, hrun,
      decompressLoop_sequence _ _ _ _ (by omega) hd (by omega) hmin (by omega) hsize, hjoin, hanchor,
      hlits, show anchor + (position - anchor) = position by omega]
    rw [Nat.add_zero] at hcopy
    rw [hcopy]
  · intro matchBegin matchEnd he
    obtain ⟨rfl, rfl⟩ := Prod.mk.inj (Option.some.inj he)
    simp only [lastLiterals, matchFindLimit]
    omega

/-- A property of what is written and of the start of the literals left, kept by every sequence the
search loop emits. -/
theorem searchLoop_invariant {data : Bytes} {I : Bytes → Nat → Prop}
    (hstep : ∀ {encoded : Bytes} {anchor position matchPos length : Nat}, I encoded anchor →
      anchor ≤ position → position < data.length - matchFindLimit → matchPos < position →
      position - matchPos ≤ maxDistance → minMatch ≤ length →
      position + length ≤ data.length - lastLiterals →
      (∀ i < length, data.getD (matchPos + i) 0 = data.getD (position + i) 0) →
      I (encoded ++ emitSequence (slice data anchor (position - anchor)) (position - matchPos) length)
        (position + length))
    (steps : Nat) {table : Nat → Nat} {position anchor : Nat} {encoded : Bytes}
    (htable : ∀ s, table s ≤ position) (ha : anchor ≤ position) (hp : position ≤ data.length)
    (he : I encoded anchor) :
    (searchLoop data steps table position anchor encoded).2 ≤ data.length ∧
      I (searchLoop data steps table position anchor encoded).1
        (searchLoop data steps table position anchor encoded).2 := by
  induction steps generalizing table position anchor encoded with
  | zero => exact ⟨by simp only [searchLoop]; omega, he⟩
  | succ steps ih =>
    rw [searchLoop]
    split
    · rename_i hlt
      simp only [matchFindLimit] at hlt
      -- a position enters the table with the cursor behind it
      have hupdate : ∀ (slot k : Nat), position + 1 ≤ k → ∀ s,
          Function.update table slot (position + 1) s ≤ k := by
        intro slot k hk s
        by_cases hs : s = slot
        · rw [hs, Function.update_self]
          exact hk
        · rw [Function.update_of_ne hs]
          exact Nat.le_trans (htable s) (by omega)
      simp only
      split
      · exact ih (hupdate _ _ (Nat.le_refl _)) (by omega) (by omega) he
      · rename_i hcand
        have hc := htable (hash (load32 data position))
        split
        · exact ih (hupdate _ _ (Nat.le_refl _)) (by omega) (by omega) he
        · rename_i hmatch
          push Not at hmatch
          obtain ⟨hd, hload⟩ := hmatch
          have hagree := load32_agree (by omega) (by omega) hload
          obtain ⟨l1, l2, l3⟩ := matchLength_spec data
            (table (hash (load32 data position)) - 1) position (data.length - lastLiterals)
            data.length minMatch hagree
            (by simp only [minMatch, lastLiterals]; omega)
          have hseq := hstep he ha (by simp only [matchFindLimit]; omega) (by omega) hd l1 l2 l3
          have h4 : minMatch = 4 := rfl
          exact ih (hupdate _ _ (by omega)) (Nat.le_refl _) (by omega) hseq
    · exact ⟨by simp only; omega, he⟩

theorem decompress_compress {x : Bytes} (hsize : x.length ≤ sizeMax) {y : Bytes}
    (h : compress x = .ok y) : decompress y x.length = .ok x := by
  obtain ⟨encoded, anchor, ha, hy, steps, last, hsteps, hrun, hlast⟩ : ∃ encoded anchor,
      anchor ≤ x.length ∧ y = encoded ++ emitLastLiterals (x.drop anchor) ∧ Encodes x encoded anchor := by
    unfold compress at h
    split at h
    · obtain ⟨h1, h2⟩ := searchLoop_invariant
        (fun he ha hp hm hd hmin hend hagree => he.sequence hsize ha hp hm hd hmin hend hagree)
        x.length (fun _ => Nat.le_refl 0) (Nat.le_refl _) (Nat.zero_le _) (Encodes.nil x)
      exact ⟨_, _, h1, (Except.ok.inj h).symm, h2⟩
    · exact ⟨[], 0, Nat.zero_le _, (Except.ok.inj h).symm, .nil x⟩
  have hlen : y.length = steps + ((encoded.length - steps) +
      (lengthTail (x.drop anchor).length ++ x.drop anchor).length + 1) := by
    rw [hy, List.length_append, emitLastLiterals, List.length_cons]
    omega
  have htake : (x.take anchor).length = anchor := by
    rw [List.length_take]
    omega
  have hloop : decompressLoop x.length y.length y [] none = .ok (x, last) := by
    rw [hlen, hy, hrun, decompressLoop_last, List.take_append_drop]
    rw [htake, List.length_drop]
    omega
  rw [decompress, hloop]
  simp only [bind, Except.bind]
  rw [if_neg (fun hx => hx rfl)]
  cases hl : last with
  | none => rfl
  | some p =>
    obtain ⟨h1, h2⟩ := hlast p.1 p.2 hl
    exact if_neg (by omega)

end Lz4

/-- A built-in codec gives back what it was given. -/
theorem builtInCodec_lossless {id : CompressionId} {c : CompressionCodec}
    (hc : builtInCodec id = some c) {x y : Bytes} (hsize : x.length ≤ sizeMax)
    (h : c.compress x = .ok y) : c.decompress y x.length = .ok x := by
  unfold builtInCodec at hc
  split at hc
  · obtain rfl := Option.some.inj hc
    obtain rfl := Except.ok.inj h
    exact if_neg (fun hx => hx rfl)
  · split at hc
    · obtain rfl := Option.some.inj hc
      exact PackBits.decompress_compress x h
    · split at hc
      · obtain rfl := Option.some.inj hc
        exact Lz4.decompress_compress hsize h
      · cases hc

end TFDB
