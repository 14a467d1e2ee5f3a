import TFDB.Lossless

/-!
# LZ4 block streams

The byte grammar of section 6 of `format-v1.md`, and the codec against it.

* `Extension`, `LengthField`, `Sequence.Stored`, `Stream` — the grammar: sequences of literals and
  a match, and literals at the end;
* `Sequence.apply`, `interpret` — what a stream means, a byte at a time;
* `readLength_iff`, `decompressLoop_iff` — the loops of the decoder parse the grammar;
* `Stream.unique` — a byte string is a stream in at most one way;
* `lz4_codec` — the encoder writes streams, within its bound.
-/

set_option autoImplicit false

namespace TFDB

open ByteLib

namespace Lz4

/-! ## The grammar -/

/-- The bytes behind a nibble of 15, and what they add to it. -/
inductive Extension : Nat → Bytes → Prop
  | last {b : UInt8} (h : b ≠ 255) : Extension b.toNat [b]
  | more {n : Nat} {bs : Bytes} (h : Extension n bs) : Extension (255 + n) (255 :: bs)

/-- A length as a nibble and the bytes behind it. -/
def LengthField (nibble : Nat) (tail : Bytes) (n : Nat) : Prop :=
  (nibble < 15 ∧ tail = [] ∧ n = nibble) ∨ (nibble = 15 ∧ ∃ m, Extension m tail ∧ n = 15 + m)

/-- Literals, and a match of `length` bytes that starts `distance` bytes back. -/
structure Sequence where
  literals : Bytes
  distance : Nat
  length : Nat

/-- The bytes of a sequence. -/
def Sequence.Stored (q : Sequence) (bs : Bytes) : Prop :=
  ∃ (token low high : UInt8) (front tail : Bytes) (n : Nat),
    bs = token :: (front ++ (q.literals ++ low :: high :: tail)) ∧
    LengthField (token.toNat / 16) front q.literals.length ∧
    q.distance = low.toNat + 256 * high.toNat ∧
    LengthField (token.toNat % 16) tail n ∧ q.length = n + minMatch

/-- The bytes of the literals at the end. -/
def LastStored (literals bs : Bytes) : Prop :=
  ∃ (token : UInt8) (front : Bytes), bs = token :: (front ++ literals) ∧
    LengthField (token.toNat / 16) front literals.length ∧ token.toNat % 16 = 0

/-- A stream: sequences, and literals at the end. -/
inductive Stream : List Sequence → Bytes → Bytes → Prop
  | last {literals bs : Bytes} (h : LastStored literals bs) : Stream [] literals bs
  | cons {q : Sequence} {qs : List Sequence} {literals bs rest : Bytes} (hq : q.Stored bs)
      (h : Stream qs literals rest) : Stream (q :: qs) literals (bs ++ rest)

/-! ## Its meaning -/

/-- The output behind a sequence. -/
def Sequence.apply (decoded : Bytes) (q : Sequence) : Bytes :=
  copyMatch q.distance q.length (decoded ++ q.literals)

/-- The output of a stream. -/
def interpret (qs : List Sequence) (literals : Bytes) : Bytes :=
  qs.foldl Sequence.apply [] ++ literals

/-- Every match starts in the output before it. -/
def Reaching : Bytes → List Sequence → Prop
  | _, [] => True
  | decoded, q :: qs =>
    1 ≤ q.distance ∧ q.distance ≤ decoded.length + q.literals.length ∧ Reaching (q.apply decoded) qs

/-- The last match ends five and starts twelve bytes in front of the end. -/
def EndsInLiterals (qs : List Sequence) (literals : Bytes) : Prop :=
  ∀ q, qs.getLast? = some q → lastLiterals ≤ literals.length ∧
    matchFindLimit ≤ q.length + literals.length

/-! ## Lengths -/

theorem copyMatch_length (distance n : Nat) (decoded : Bytes) :
    (copyMatch distance n decoded).length = decoded.length + n := by
  induction n generalizing decoded with
  | zero => rfl
  | succ n ih =>
    rw [copyMatch, ih, List.length_append, List.length_singleton]
    omega

@[simp] theorem Sequence.apply_length (q : Sequence) (decoded : Bytes) :
    (q.apply decoded).length = decoded.length + q.literals.length + q.length := by
  rw [Sequence.apply, copyMatch_length, List.length_append]

theorem foldl_apply_length_le (qs : List Sequence) (decoded : Bytes) :
    decoded.length ≤ (qs.foldl Sequence.apply decoded).length := by
  induction qs generalizing decoded with
  | nil => exact Nat.le_refl _
  | cons q qs ih =>
    have h := ih (q.apply decoded)
    rw [Sequence.apply_length] at h
    rw [List.foldl_cons]
    omega

theorem Extension.ne_nil {n : Nat} {bs : Bytes} (h : Extension n bs) : bs ≠ [] := by
  cases h <;> exact List.cons_ne_nil _ _

/-- The loop behind a saturated nibble reads the bytes of an extension, up to its limit. -/
theorem readLength_iff (limit : Nat) (rest : Bytes) (length n : Nat) (rest' : Bytes) :
    readLength limit length rest = some (n, rest') ↔
      ∃ m tail, Extension m tail ∧ rest = tail ++ rest' ∧ n = length + m ∧ n ≤ limit := by
  induction rest generalizing length with
  | nil =>
    refine ⟨fun h => (by cases h), ?_⟩
    rintro ⟨m, tail, hext, hnil, -⟩
    exact absurd (List.append_eq_nil_iff.mp hnil.symm).1 hext.ne_nil
  | cons extra rest ih =>
    rw [readLength]
    split
    · -- the limit is passed
      rename_i hlimit
      refine ⟨fun h => (by cases h), ?_⟩
      rintro ⟨m, tail, hext, heq, rfl, hle⟩
      cases hext with
      | last hb =>
        obtain ⟨rfl, -⟩ := List.cons.inj heq
        omega
      | more hext =>
        obtain ⟨rfl, -⟩ := List.cons.inj heq
        have h255 : (255 : UInt8).toNat = 255 := rfl
        omega
    · rename_i hlimit
      split
      · -- the last byte
        rename_i hne
        constructor
        · intro h
          obtain ⟨rfl, rfl⟩ := Prod.mk.inj (Option.some.inj h)
          exact ⟨extra.toNat, [extra], .last hne, rfl, rfl, by omega⟩
        · rintro ⟨m, tail, hext, heq, rfl, -⟩
          cases hext with
          | last hb =>
            obtain ⟨rfl, rfl⟩ := List.cons.inj heq
            rfl
          | more hext =>
            obtain ⟨rfl, -⟩ := List.cons.inj heq
            exact absurd rfl hne
      · rename_i h255
        obtain rfl : extra = 255 := not_not.mp h255
        have hval : (255 : UInt8).toNat = 255 := rfl
        rw [hval, ih]
        constructor
        · rintro ⟨m, tail, hext, rfl, rfl, hle⟩
          exact ⟨255 + m, 255 :: tail, .more hext, rfl, by omega, hle⟩
        · rintro ⟨m, tail, hext, heq, rfl, hle⟩
          cases hext with
          | last hb =>
            obtain ⟨rfl, -⟩ := List.cons.inj heq
            exact absurd rfl hb
          | more hext =>
            obtain ⟨-, rfl⟩ := List.cons.inj heq
            exact ⟨_, _, hext, rfl, by omega, hle⟩

/-- A nibble with the bytes behind it. -/
theorem nibbleLength_iff (limit : Nat) {nibble : Nat} (hn : nibble < 16) (rest : Bytes) (n : Nat)
    (rest' : Bytes) : nibbleLength limit nibble rest = some (n, rest') ↔
      ∃ tail, LengthField nibble tail n ∧ rest = tail ++ rest' ∧ (nibble = 15 → n ≤ limit) := by
  unfold nibbleLength
  split
  · rename_i h15
    subst h15
    rw [readLength_iff]
    constructor
    · rintro ⟨m, tail, hext, heq, rfl, hle⟩
      exact ⟨tail, .inr ⟨rfl, m, hext, rfl⟩, heq, fun _ => hle⟩
    · rintro ⟨tail, ⟨hlt, -⟩ | ⟨-, m, hext, rfl⟩, heq, hle⟩
      · omega
      · exact ⟨m, tail, hext, heq, rfl, hle rfl⟩
  · rename_i h15
    constructor
    · intro h
      obtain ⟨rfl, rfl⟩ := Prod.mk.inj (Option.some.inj h)
      exact ⟨[], .inl ⟨by omega, rfl, rfl⟩, rfl, fun h => absurd h h15⟩
    · rintro ⟨tail, ⟨-, rfl, rfl⟩ | ⟨h, -⟩, rfl, -⟩
      · rfl
      · exact absurd h h15

/-! ## The decoder loop -/

/-- The end of the stream behind its literals, or a sequence with a match. -/
theorem decompressLoop_cons_iff {expectedSize fuel : Nat} {token : UInt8} {rest decoded : Bytes}
    {last : LastMatch} {r : Bytes × LastMatch} (hd : decoded.length ≤ expectedSize)
    (hsize : expectedSize ≤ sizeMax) :
    decompressLoop expectedSize (fuel + 1) (token :: rest) decoded last = .ok r ↔
      (∃ front literals, rest = front ++ literals ∧
        LengthField (token.toNat / 16) front literals.length ∧
        decoded.length + literals.length ≤ expectedSize ∧ token.toNat % 16 = 0 ∧
        r = (decoded ++ literals, last)) ∨
      ∃ (q : Sequence) (bs rest' : Bytes), q.Stored bs ∧ token :: rest = bs ++ rest' ∧
        1 ≤ q.distance ∧ q.distance ≤ decoded.length + q.literals.length ∧
        decoded.length + q.literals.length + q.length ≤ expectedSize ∧
        decompressLoop expectedSize fuel rest' (q.apply decoded)
          (some (decoded.length + q.literals.length,
            decoded.length + q.literals.length + q.length)) = .ok r := by
  have htoken := token.toNat_lt
  have hhigh : token.toNat / 16 < 16 := by omega
  have hlow : token.toNat % 16 < 16 := by omega
  constructor
  · intro h
    rw [decompressLoop] at h
    cases hlit : nibbleLength expectedSize (token.toNat / 16) rest with
    | none =>
      rw [hlit] at h
      cases h
    | some p =>
      obtain ⟨literals, rest₁⟩ := p
      rw [hlit] at h
      dsimp only at h
      obtain ⟨front, hfield, rfl, -⟩ := (nibbleLength_iff _ hhigh _ _ _).mp hlit
      split at h
      · cases h
      rename_i hroom
      have htake : (rest₁.take literals).length = literals := by
        rw [List.length_take]
        omega
      cases hdrop : rest₁.drop literals with
      | nil =>
        rw [hdrop] at h
        dsimp only at h
        split at h
        · cases h
        rename_i hzero
        refine .inl ⟨front, rest₁.take literals, ?_, by rwa [htake], by rw [htake]; omega,
          not_not.mp hzero, (Except.ok.inj h).symm⟩
        rw [← List.take_append_drop literals rest₁, hdrop, List.append_nil, List.take_take,
          Nat.min_self]
      | cons low tail₁ =>
        cases htail : tail₁ with
        | nil =>
          rw [hdrop, htail] at h
          cases h
        | cons high rest₂ =>
          rw [hdrop, htail] at h
          dsimp only at h
          split at h
          · cases h
          rename_i hdist
          cases hmatch : nibbleLength expectedSize (token.toNat % 16) rest₂ with
          | none =>
            rw [hmatch] at h
            cases h
          | some p =>
            obtain ⟨m, rest₃⟩ := p
            rw [hmatch] at h
            dsimp only at h
            obtain ⟨tail, hfield', rfl, -⟩ := (nibbleLength_iff _ hlow _ _ _).mp hmatch
            split at h
            · cases h
            split at h
            · cases h
            rename_i hlen
            rw [List.length_append, htake] at hdist hlen h
            refine .inr ⟨⟨rest₁.take literals, low.toNat + 256 * high.toNat, m + minMatch⟩,
              token :: (front ++ (rest₁.take literals ++ low :: high :: tail)), rest₃,
              ⟨token, low, high, front, tail, m, rfl, by rwa [htake], rfl, hfield', rfl⟩, ?_,
              by dsimp only; omega, by dsimp only; rw [htake]; omega,
              by dsimp only; rw [htake]; omega, ?_⟩
            · conv_lhs => rw [← List.take_append_drop literals rest₁, hdrop, htail]
              simp only [List.cons_append, List.append_assoc]
            · rw [htake]
              exact h
  · rintro (⟨front, literals, rfl, hfield, hroom, hzero, rfl⟩ |
      ⟨⟨literals, distance, length⟩, bs, rest', ⟨token', low, high, front, tail, m, rfl, hfield,
        hdist, hfield', hlength⟩, heq, hpos, hreach, hroom, hrun⟩)
    · have hlit := (nibbleLength_iff expectedSize hhigh (front ++ literals) _ _).mpr
        ⟨front, hfield, rfl, fun _ => by omega⟩
      rw [decompressLoop, hlit]
      dsimp only
      rw [if_neg (by omega), List.take_length, List.drop_length]
      dsimp only
      rw [if_neg (not_not.mpr hzero)]
    · dsimp only at hfield hdist hlength hpos hreach hroom hrun
      subst hdist hlength
      rw [List.cons_append] at heq
      obtain ⟨rfl, rfl⟩ := List.cons.inj heq
      simp only [minMatch] at hroom
      have hlit := (nibbleLength_iff expectedSize hhigh
        (front ++ (literals ++ low :: high :: (tail ++ rest'))) _ _).mpr
        ⟨front, hfield, rfl, fun _ => by omega⟩
      have hmatch := (nibbleLength_iff expectedSize hlow (tail ++ rest') _ _).mpr
        ⟨tail, hfield', rfl, fun _ => by omega⟩
      simp only [List.append_assoc, List.cons_append]
      rw [decompressLoop, hlit]
      dsimp only
      rw [if_neg (by rw [List.length_append]; omega), List.take_left, List.drop_left]
      dsimp only
      rw [if_neg (by rw [List.length_append]; omega), hmatch]
      dsimp only
      rw [if_neg (by simp only [sizeMax, minMatch] at *; omega),
        if_neg (by rw [List.length_append]; simp only [minMatch]; omega), List.length_append]
      exact hrun

/-- What the loop has read: sequences, with literals behind them or nothing. -/
inductive Parse : List Sequence → Option Bytes → Bytes → Prop
  | done : Parse [] none []
  | last {literals bs : Bytes} (h : LastStored literals bs) : Parse [] (some literals) bs
  | cons {q : Sequence} {qs : List Sequence} {fin : Option Bytes} {bs rest : Bytes}
      (hq : q.Stored bs) (h : Parse qs fin rest) : Parse (q :: qs) fin (bs ++ rest)

theorem Parse.stream {qs : List Sequence} {literals bs : Bytes} :
    Parse qs (some literals) bs ↔ Stream qs literals bs := by
  constructor
  · intro h
    generalize hfin : some literals = fin at h
    induction h with
    | done => cases hfin
    | last h =>
      cases hfin
      exact .last h
    | cons hq _ ih => exact .cons hq (ih hfin)
  · intro h
    induction h with
    | last h => exact .last h
    | cons hq _ ih => exact .cons hq ih

/-- Where the last match of the sequences lands. -/
def lastMatch : LastMatch → Bytes → List Sequence → LastMatch
  | last, _, [] => last
  | _, decoded, q :: qs => lastMatch (some (decoded.length + q.literals.length,
      decoded.length + q.literals.length + q.length)) (q.apply decoded) qs

theorem Sequence.Stored.ne_nil {q : Sequence} {bs : Bytes} (h : q.Stored bs) : bs ≠ [] := by
  obtain ⟨token, low, high, front, tail, n, rfl, -⟩ := h
  exact List.cons_ne_nil _ _

theorem Parse.nil_inv {qs : List Sequence} {fin : Option Bytes} (h : Parse qs fin []) :
    qs = [] ∧ fin = none := by
  generalize hs : ([] : Bytes) = s at h
  cases h with
  | done => exact ⟨rfl, rfl⟩
  | last h =>
    obtain ⟨token, front, rfl, -⟩ := h
    cases hs
  | cons hq _ => exact absurd (List.append_eq_nil_iff.mp hs.symm).1 hq.ne_nil

/-- At the end of the input the loop ends. -/
theorem parse_nil_iff {expectedSize : Nat} {decoded : Bytes} {last : LastMatch}
    {r : Bytes × LastMatch} (hd : decoded.length ≤ expectedSize) :
    (.ok (decoded, last) : Except Status (Bytes × LastMatch)) = .ok r ↔
      ∃ qs fin, Parse qs fin [] ∧ Reaching decoded qs ∧
        r = (qs.foldl Sequence.apply decoded ++ fin.getD [], lastMatch last decoded qs) ∧
        r.1.length ≤ expectedSize := by
  constructor
  · intro h
    cases h
    exact ⟨[], none, .done, trivial, by simp [lastMatch], hd⟩
  · rintro ⟨qs, fin, hparse, -, rfl, -⟩
    obtain ⟨rfl, rfl⟩ := hparse.nil_inv
    simp [lastMatch]

/-- **The loop parses the grammar**, and runs what it reads. -/
theorem decompressLoop_iff {expectedSize : Nat} (hsize : expectedSize ≤ sizeMax) (fuel : Nat)
    {s decoded : Bytes} {last : LastMatch} {r : Bytes × LastMatch} (hfuel : s.length ≤ fuel)
    (hd : decoded.length ≤ expectedSize) :
    decompressLoop expectedSize fuel s decoded last = .ok r ↔
      ∃ qs fin, Parse qs fin s ∧ Reaching decoded qs ∧
        r = (qs.foldl Sequence.apply decoded ++ fin.getD [], lastMatch last decoded qs) ∧
        r.1.length ≤ expectedSize := by
  induction fuel generalizing s decoded last with
  | zero =>
    obtain rfl : s = [] := List.length_eq_zero_iff.mp (by omega)
    exact parse_nil_iff hd
  | succ fuel ih =>
    cases s with
    | nil =>
      exact parse_nil_iff hd
    | cons token rest =>
      rw [decompressLoop_cons_iff hd hsize]
      constructor
      · rintro (⟨front, literals, rfl, hfield, hroom, hzero, rfl⟩ |
          ⟨q, bs, rest', hq, heq, hpos, hreach, hroom, hrun⟩)
        · exact ⟨[], some literals, .last ⟨token, front, rfl, hfield, hzero⟩, trivial, rfl,
            by simpa using hroom⟩
        · have hlen := congrArg List.length heq
          have hbs := List.length_pos_of_ne_nil hq.ne_nil
          rw [List.length_append] at hlen
          obtain ⟨qs, fin, hparse, hqs, rfl, hle⟩ := (ih (by omega) (by
            rw [Sequence.apply_length]
            omega)).mp hrun
          rw [heq]
          exact ⟨q :: qs, fin, .cons hq hparse, ⟨hpos, hreach, hqs⟩, rfl, hle⟩
      · rintro ⟨qs, fin, hparse, hreach, rfl, hle⟩
        generalize hs : token :: rest = s at hparse
        cases hparse with
        | done => cases hs
        | last h =>
          obtain ⟨token', front, rfl, hfield, hzero⟩ := h
          obtain ⟨rfl, rfl⟩ := List.cons.inj hs
          refine .inl ⟨front, _, rfl, hfield, ?_, hzero, rfl⟩
          simpa using hle
        | @cons q qs fin bs rest' hq hparse =>
          obtain ⟨hpos, hdist, hreach⟩ := hreach
          have hlen := congrArg List.length hs
          have hbs := List.length_pos_of_ne_nil hq.ne_nil
          rw [List.length_append] at hlen
          have hroom : decoded.length + q.literals.length + q.length ≤ expectedSize := by
            have h1 := foldl_apply_length_le qs (q.apply decoded)
            rw [Sequence.apply_length] at h1
            rw [List.length_append, List.foldl_cons] at hle
            omega
          refine .inr ⟨q, bs, rest', hq, rfl, hpos, hdist, hroom, ?_⟩
          rw [ih (by omega) (by rw [Sequence.apply_length]; exact hroom)]
          exact ⟨qs, fin, hparse, hreach, rfl, hle⟩

/-- The last match ends where the literals behind it begin. -/
theorem lastMatch_concat (qs : List Sequence) (q : Sequence) (last : LastMatch) (decoded : Bytes) :
    lastMatch last decoded (qs ++ [q]) =
      some ((qs.foldl Sequence.apply decoded).length + q.literals.length,
        (qs.foldl Sequence.apply decoded).length + q.literals.length + q.length) := by
  induction qs generalizing last decoded with
  | nil => rfl
  | cons p qs ih => rw [List.cons_append, lastMatch, ih, List.foldl_cons]

/-- The decoder: the loop, and the checks behind it. -/
theorem decompress_eq_ok_iff {s o : Bytes} {expectedSize : Nat} :
    decompress s expectedSize = .ok o ↔ ∃ last,
      decompressLoop expectedSize s.length s [] none = .ok (o, last) ∧ o.length = expectedSize ∧
      ∀ matchBegin matchEnd, last = some (matchBegin, matchEnd) →
        lastLiterals ≤ expectedSize - matchEnd ∧ matchFindLimit ≤ expectedSize - matchBegin := by
  unfold decompress
  cases hloop : decompressLoop expectedSize s.length s [] none with
  | error e =>
    refine ⟨fun h => (by cases h), ?_⟩
    rintro ⟨last, h, -⟩
    cases h
  | ok r =>
    obtain ⟨decoded, last⟩ := r
    simp only [bind, Except.bind]
    split
    · rename_i hne
      refine ⟨fun h => (by cases h), ?_⟩
      rintro ⟨last', h, hlen, -⟩
      cases h
      exact absurd hlen hne
    · rename_i hlen
      cases last with
      | none =>
        dsimp only
        constructor
        · intro h
          cases h
          exact ⟨none, rfl, not_not.mp hlen, fun _ _ h => by cases h⟩
        · rintro ⟨last', h, -⟩
          cases h
          rfl
      | some p =>
        obtain ⟨lastBegin, lastEnd⟩ := p
        dsimp only
        split
        · rename_i hbad
          refine ⟨fun h => (by cases h), ?_⟩
          rintro ⟨last', h, -, hends⟩
          cases h
          have := hends lastBegin lastEnd rfl
          omega
        · rename_i hgood
          constructor
          · intro h
            cases h
            refine ⟨_, rfl, not_not.mp hlen, fun _ _ h => ?_⟩
            cases h
            omega
          · rintro ⟨last', h, -⟩
            cases h
            rfl

/-- **The decoder accepts exactly the grammar.** -/
theorem decompress_iff {s o : Bytes} {expectedSize : Nat} (hsize : expectedSize ≤ sizeMax) :
    decompress s expectedSize = .ok o ↔ (s = [] ∧ o = [] ∧ expectedSize = 0) ∨
      ∃ qs literals, Stream qs literals s ∧ Reaching [] qs ∧ EndsInLiterals qs literals ∧
        interpret qs literals = o ∧ o.length = expectedSize := by
  rw [decompress_eq_ok_iff]
  constructor
  · rintro ⟨last, hloop, hlen, hends⟩
    obtain ⟨qs, fin, hparse, hreach, hr, -⟩ :=
      (decompressLoop_iff hsize s.length (Nat.le_refl _) (Nat.zero_le _)).mp hloop
    obtain ⟨rfl, rfl⟩ := Prod.mk.inj hr
    rcases List.eq_nil_or_concat' qs with rfl | ⟨qs, q, rfl⟩
    · cases fin with
      | none =>
        cases hparse
        exact .inl ⟨rfl, rfl, hlen.symm⟩
      | some literals =>
        exact .inr ⟨[], literals, Parse.stream.mp hparse, trivial, fun _ h => (by cases h), rfl, hlen⟩
    · have hends' := hends _ _ (lastMatch_concat qs q none [])
      have htotal : ((qs ++ [q]).foldl Sequence.apply []).length =
          (qs.foldl Sequence.apply []).length + q.literals.length + q.length := by
        rw [List.foldl_append, List.foldl_cons, List.foldl_nil, Sequence.apply_length]
      cases fin with
      | none =>
        -- a stream that ends behind a match leaves no literals
        rw [Option.getD_none, List.append_nil, htotal] at hlen
        simp only [lastLiterals, matchFindLimit] at hends'
        omega
      | some literals =>
        refine .inr ⟨qs ++ [q], literals, Parse.stream.mp hparse, hreach, fun q' hq' => ?_, rfl,
          hlen⟩
        rw [List.getLast?_concat] at hq'
        cases hq'
        rw [Option.getD_some, List.length_append, htotal] at hlen
        omega
  · rintro (⟨rfl, rfl, rfl⟩ | ⟨qs, literals, hstream, hreach, hends, rfl, hlen⟩)
    · exact ⟨none, rfl, rfl, fun _ _ h => by cases h⟩
    · refine ⟨lastMatch none [] qs, ?_, hlen, ?_⟩
      · rw [decompressLoop_iff hsize s.length (Nat.le_refl _) (Nat.zero_le _)]
        exact ⟨qs, some literals, Parse.stream.mpr hstream, hreach, rfl, Nat.le_of_eq hlen⟩
      · intro matchBegin matchEnd hlast
        rcases List.eq_nil_or_concat' qs with rfl | ⟨qs, q, rfl⟩
        · cases hlast
        · obtain ⟨h1, h2⟩ := hends q List.getLast?_concat
          rw [lastMatch_concat] at hlast
          obtain ⟨rfl, rfl⟩ := Prod.mk.inj (Option.some.inj hlast)
          rw [interpret, List.length_append, List.foldl_append, List.foldl_cons, List.foldl_nil,
            Sequence.apply_length] at hlen
          omega

/-- A stream the decoder does not accept is corrupt. -/
theorem decompressLoop_error {expectedSize fuel : Nat} {s decoded : Bytes} {last : LastMatch}
    {e : Status} (h : decompressLoop expectedSize fuel s decoded last = .error e) :
    e.code = .corrupt := by
  induction fuel generalizing s decoded last with
  | zero => cases h
  | succ fuel ih =>
    cases s with
    | nil => cases h
    | cons token rest =>
      rw [decompressLoop] at h
      split at h
      · cases h; rfl
      split at h
      · cases h; rfl
      dsimp only at h
      split at h
      · split at h
        · cases h; rfl
        · cases h
      · cases h; rfl
      · split at h
        · cases h; rfl
        split at h
        · cases h; rfl
        split at h
        · cases h; rfl
        split at h
        · cases h; rfl
        · exact ih h

theorem decompress_error {s : Bytes} {expectedSize : Nat} {e : Status}
    (h : decompress s expectedSize = .error e) : e.code = .corrupt := by
  unfold decompress at h
  cases hloop : decompressLoop expectedSize s.length s [] none with
  | error e' =>
    rw [hloop] at h
    cases h
    exact decompressLoop_error hloop
  | ok r =>
    rw [hloop] at h
    simp only [bind, Except.bind] at h
    split at h
    · cases h; rfl
    split at h
    · cases h
    · split at h
      · cases h; rfl
      · cases h

/-! ## One way to read a stream -/

theorem Extension.unique {m m' : Nat} {tail tail' rest rest' : Bytes} (h : Extension m tail)
    (h' : Extension m' tail') (heq : tail ++ rest = tail' ++ rest') :
    m = m' ∧ rest = rest' := by
  induction h generalizing m' tail' with
  | last hb =>
    cases h' with
    | last hb' =>
      obtain ⟨rfl, hrest⟩ := List.cons.inj heq
      exact ⟨rfl, hrest⟩
    | more h' =>
      obtain ⟨rfl, -⟩ := List.cons.inj heq
      exact absurd rfl hb
  | more h ih =>
    cases h' with
    | last hb' =>
      obtain ⟨rfl, -⟩ := List.cons.inj heq
      exact absurd rfl hb'
    | more h' =>
      obtain ⟨rfl, hrest⟩ := ih h' (List.cons.inj heq).2
      exact ⟨rfl, hrest⟩

theorem LengthField.unique {nibble n n' : Nat} {tail tail' rest rest' : Bytes}
    (h : LengthField nibble tail n) (h' : LengthField nibble tail' n')
    (heq : tail ++ rest = tail' ++ rest') : n = n' ∧ rest = rest' := by
  rcases h with ⟨hlt, rfl, rfl⟩ | ⟨h15, m, hext, rfl⟩
  · rcases h' with ⟨-, rfl, rfl⟩ | ⟨h15, -⟩
    · exact ⟨rfl, heq⟩
    · omega
  · rcases h' with ⟨hlt, -⟩ | ⟨-, m', hext', rfl⟩
    · omega
    · obtain ⟨rfl, hrest⟩ := hext.unique hext' heq
      exact ⟨rfl, hrest⟩

theorem Sequence.Stored.unique {q q' : Sequence} {bs bs' rest rest' : Bytes} (h : q.Stored bs)
    (h' : q'.Stored bs') (heq : bs ++ rest = bs' ++ rest') : q = q' ∧ rest = rest' := by
  obtain ⟨token, low, high, front, tail, n, rfl, hlit, hdist, hmatch, hlen⟩ := h
  obtain ⟨token', low', high', front', tail', n', rfl, hlit', hdist', hmatch', hlen'⟩ := h'
  simp only [List.cons_append, List.append_assoc] at heq
  obtain ⟨rfl, hafter⟩ := List.cons.inj heq
  obtain ⟨hn, hbytes⟩ := hlit.unique hlit' hafter
  obtain ⟨hlits, hoffset⟩ := List.append_inj hbytes hn
  obtain ⟨rfl, hhigh⟩ := List.cons.inj hoffset
  obtain ⟨rfl, htail⟩ := List.cons.inj hhigh
  obtain ⟨rfl, hrest⟩ := hmatch.unique hmatch' htail
  refine ⟨?_, hrest⟩
  cases q
  cases q'
  simp_all

/-- Literals at the end leave nothing for a match. -/
theorem LastStored.not_stored {literals bs bs' rest : Bytes} {q : Sequence}
    (h : LastStored literals bs) (h' : q.Stored bs') (heq : bs = bs' ++ rest) : False := by
  obtain ⟨token, front, rfl, hlit, -⟩ := h
  obtain ⟨token', low, high, front', tail, n, rfl, hlit', -⟩ := h'
  simp only [List.cons_append, List.append_assoc] at heq
  obtain ⟨rfl, hafter⟩ := List.cons.inj heq
  obtain ⟨hn, hbytes⟩ := hlit.unique hlit' hafter
  have hlen := congrArg List.length hbytes
  simp only [List.length_append, List.length_cons] at hlen
  omega

/-- A byte string is a stream in one way. -/
theorem Stream.unique {qs qs' : List Sequence} {literals literals' bs : Bytes}
    (h : Stream qs literals bs) (h' : Stream qs' literals' bs) :
    qs = qs' ∧ literals = literals' := by
  induction h generalizing qs' with
  | @last literals bs h =>
    generalize hbs : bs = bs' at h'
    cases h' with
    | last h' =>
      obtain ⟨token, front, rfl, hlit, -⟩ := h
      obtain ⟨token', front', rfl, hlit', -⟩ := h'
      obtain ⟨rfl, heq⟩ := List.cons.inj hbs
      exact ⟨rfl, (hlit.unique hlit' heq).2⟩
    | cons hq _ => exact (h.not_stored hq hbs).elim
  | @cons q qs literals bs rest hq hs ih =>
    generalize hbs : bs ++ rest = bs' at h'
    cases h' with
    | last h' => exact (h'.not_stored hq hbs.symm).elim
    | cons hq' hs' =>
      obtain ⟨rfl, rfl⟩ := hq.unique hq' hbs
      obtain ⟨rfl, rfl⟩ := ih hs'
      exact ⟨rfl, rfl⟩

/-- The offset and the length a sequence can hold. -/
theorem Sequence.Stored.bounds {q : Sequence} {bs : Bytes} (h : q.Stored bs) :
    q.distance ≤ maxDistance ∧ minMatch ≤ q.length := by
  obtain ⟨token, low, high, front, tail, n, -, -, hdist, -, hlen⟩ := h
  have h1 := low.toNat_lt
  have h2 := high.toNat_lt
  simp only [maxDistance]
  omega

theorem Stream.bounds {qs : List Sequence} {literals bs : Bytes} (h : Stream qs literals bs) :
    ∀ q ∈ qs, q.distance ≤ maxDistance ∧ minMatch ≤ q.length := by
  induction h with
  | last h => exact fun q hq => by cases hq
  | cons hq _ ih =>
    intro p hp
    rcases List.mem_cons.mp hp with rfl | hp
    · exact hq.bounds
    · exact ih p hp

theorem Reaching.pos {qs : List Sequence} {decoded : Bytes} (h : Reaching decoded qs) :
    ∀ q ∈ qs, 1 ≤ q.distance := by
  induction qs generalizing decoded with
  | nil => exact fun q hq => by cases hq
  | cons q qs ih =>
    intro p hp
    rcases List.mem_cons.mp hp with rfl | hp
    · exact h.1
    · exact ih h.2.2 p hp

/-! ## The size of the encoding -/

theorem writeLength_length (steps : Nat) {n : Nat} (hn : n < 255 * (steps + 1)) :
    (writeLength steps n).length = n / 255 + 1 := by
  induction steps generalizing n with
  | zero =>
    rw [writeLength, List.length_singleton]
    omega
  | succ steps ih =>
    rw [writeLength]
    split
    · rw [List.length_cons, ih (by omega)]
      omega
    · rw [List.length_singleton]
      omega

/-- The bytes behind a nibble: one for 255 bytes of the length. -/
theorem lengthTail_length (n : Nat) : 255 * (lengthTail n).length ≤ n + 240 ∧
    (n < 15 → (lengthTail n).length = 0) := by
  unfold lengthTail
  split
  · rw [writeLength_length n (by omega)]
    omega
  · exact ⟨by simp, fun _ => rfl⟩

/-- A sequence takes no more than its bytes and one for 255 of them. -/
theorem emitSequence_length {literals : Bytes} {distance length : Nat} (h : minMatch ≤ length) :
    255 * (emitSequence literals distance length).length ≤ 256 * (literals.length + length) := by
  simp only [minMatch] at h
  obtain ⟨h1, -⟩ := lengthTail_length literals.length
  obtain ⟨h2, h3⟩ := lengthTail_length (length - minMatch)
  simp only [minMatch] at h2 h3
  simp only [emitSequence, List.length_cons, List.length_append, List.length_nil, minMatch]
  by_cases hshort : length - 4 < 15
  · rw [h3 hshort]
    omega
  · omega

theorem searchLoop_length {data : Bytes} {anchor : Nat} {encoded : Bytes}
    (h : searchLoop data data.length (fun _ => 0) 0 0 [] = (encoded, anchor)) :
    anchor ≤ data.length ∧ 255 * encoded.length ≤ 256 * anchor := by
  have hinv := @searchLoop_invariant data (fun encoded anchor => 255 * encoded.length ≤ 256 * anchor)
    ?_ data.length (fun _ => 0) 0 0 [] (fun _ => Nat.le_refl 0) (Nat.le_refl _) (Nat.zero_le _)
    (by simp)
  · rw [h] at hinv
    exact hinv
  · intro encoded anchor position matchPos length hI ha hp hm hd hmin hend hagree
    have hseq := @emitSequence_length (slice data anchor (position - anchor))
      (position - matchPos) length hmin
    have hslice : (slice data anchor (position - anchor)).length = position - anchor :=
      slice_length (by simp only [matchFindLimit] at hp; omega)
    rw [hslice] at hseq
    rw [List.length_append]
    omega

/-- The encoder never fails, and stays within the bound it declares. -/
theorem compress_bound (x : Bytes) : ∃ y, compress x = .ok y ∧ y ≠ [] ∧
    y.length ≤ x.length + x.length / 255 + 16 := by
  have hlast (literals : Bytes) :
      255 * (emitLastLiterals literals).length ≤ 256 * literals.length + 495 := by
    obtain ⟨h1, -⟩ := lengthTail_length literals.length
    simp only [emitLastLiterals, List.length_cons, List.length_append]
    omega
  unfold compress
  split
  · cases hloop : searchLoop x x.length (fun _ => 0) 0 0 [] with
    | mk encoded anchor =>
      obtain ⟨ha, hlen⟩ := searchLoop_length hloop
      have hend := hlast (x.drop anchor)
      rw [List.length_drop] at hend
      refine ⟨_, rfl, ?_, ?_⟩
      · exact List.append_ne_nil_of_right_ne_nil _ (List.cons_ne_nil _ _)
      · rw [List.length_append]
        omega
  · have hend := hlast x
    exact ⟨_, rfl, List.cons_ne_nil _ _, by omega⟩

end Lz4

/-- **The LZ4 codec.**  Compression succeeds within the declared bound, decompression is its
inverse, and the stream it writes keeps the rules of the format: offsets of 1 to 65535, matches of
four bytes or more, the last one twelve bytes in front of the end and five literals behind it. -/
theorem lz4_codec (x : Bytes) (hx : x.length ≤ sizeMax) :
    ∃ y, Lz4.compress x = .ok y ∧ y ≠ [] ∧ y.length ≤ x.length + x.length / 255 + 16 ∧
      Lz4.decompress y x.length = .ok x ∧
      ∃ qs literals, Lz4.Stream qs literals y ∧
        (∀ qs' literals', Lz4.Stream qs' literals' y → qs' = qs ∧ literals' = literals) ∧
        Lz4.interpret qs literals = x ∧
        (∀ q ∈ qs, 1 ≤ q.distance ∧ q.distance ≤ 65535 ∧ 4 ≤ q.length) ∧
        ∀ q, qs.getLast? = some q → 12 ≤ q.length + literals.length ∧ 5 ≤ literals.length := by
  obtain ⟨y, hy, hne, hlen⟩ := Lz4.compress_bound x
  have hback := Lz4.decompress_compress hx hy
  refine ⟨y, hy, hne, hlen, hback, ?_⟩
  obtain ⟨hnil, -⟩ | ⟨qs, literals, hstream, hreach, hends, hint, -⟩ :=
    (Lz4.decompress_iff hx).mp hback
  · exact absurd hnil hne
  refine ⟨qs, literals, hstream, fun qs' literals' h' => h'.unique hstream, hint, ?_, ?_⟩
  · intro q hq
    obtain ⟨h1, h2⟩ := hstream.bounds q hq
    exact ⟨hreach.pos q hq, h1, h2⟩
  · intro q hq
    obtain ⟨h1, h2⟩ := hends q hq
    exact ⟨h2, h1⟩

/-- Twenty equal bytes and back. -/
theorem lz4_codec_run : ∃ y, Lz4.compress (List.replicate 20 97) = .ok y ∧ y.length ≤ 36 ∧
    Lz4.decompress y 20 = .ok (List.replicate 20 97) := by
  obtain ⟨y, hy, -, hlen, hback, -⟩ := lz4_codec (List.replicate 20 97) (by decide)
  exact ⟨y, hy, hlen, hback⟩

end TFDB
