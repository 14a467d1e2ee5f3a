import TFDB.Sequences
import TFDB.Groups

/-!
# Compressed streams are prefix-free

A block is stored with its raw size.  Of two stored strings that are accepted with the same raw size,
neither is the beginning of the other.

* `PackBits.decompress_tokens`, `PackBits.Tokens.append` — an accepted string is a list of tokens, and
  those of a longer string go on with more tokens, each of which has output;
* `Lz4.Stream.extend` — a stream that goes on behind a stream has a match where that one ended;
* `streams_prefix_free` — so no strict beginning and no strict extension is accepted.
-/

set_option autoImplicit false

namespace TFDB

open ByteLib

/-- No accepted string is the beginning of another one. -/
def PrefixFree (decompress : Bytes → Except Status Bytes) : Prop :=
  ∀ s t o o', decompress s = .ok o → decompress (s ++ t) = .ok o' → t = []

/-! ## PackBits -/

namespace PackBits

theorem control_bits : ∀ n < 256, (UInt8.ofNat n &&& 0x80 = 0 ↔ n < 128) ∧
    (128 ≤ n → (UInt8.ofNat n &&& 0x7f).toNat = n - 128) := by
  decide +kernel

theorem control_token (token : UInt8) : (token &&& 0x80 = 0 ↔ token.toNat < 128) ∧
    (128 ≤ token.toNat → (token &&& 0x7f).toNat = token.toNat - 128) := by
  have h := control_bits token.toNat token.toNat_lt
  rwa [UInt8.ofNat_toNat] at h

/-- What the loop accepts is a list of tokens. -/
theorem decompressLoop_tokens {expectedSize steps : Nat} {s decoded o : Bytes}
    (hsteps : s.length ≤ steps) (h : decompressLoop expectedSize steps s decoded = .ok o) :
    ∃ gs, Tokens gs s ∧ o = decoded ++ expand gs := by
  induction steps generalizing s decoded with
  | zero =>
    obtain rfl := List.eq_nil_of_length_eq_zero (Nat.le_zero.mp hsteps)
    cases h
    exact ⟨[], .nil, (List.append_nil _).symm⟩
  | succ steps ih =>
    cases s with
    | nil =>
      cases h
      exact ⟨[], .nil, (List.append_nil _).symm⟩
    | cons token rest =>
      rw [List.length_cons] at hsteps
      rw [decompressLoop] at h
      split at h
      · rename_i htoken
        rw [(control_token token).1] at htoken
        dsimp only at h
        split at h
        · cases h
        rename_i hroom
        have hdrop : (rest.drop (token.toNat + 1)).length ≤ steps := by
          rw [List.length_drop]
          omega
        obtain ⟨gs, hgs, rfl⟩ := ih hdrop h
        have htake : (rest.take (token.toNat + 1)).length = token.toNat + 1 := by
          rw [List.length_take]
          omega
        refine ⟨.literal (rest.take (token.toNat + 1)) :: gs, ?_, ?_⟩
        · have := Tokens.literal htoken htake hgs
          rwa [List.take_append_drop] at this
        · rw [List.append_assoc]
          rfl
      · rename_i htoken
        rw [(control_token token).1, Nat.not_lt] at htoken
        dsimp only at h
        cases rest with
        | nil => cases h
        | cons b rest =>
          dsimp only at h
          split at h
          · cases h
          rw [List.length_cons] at hsteps
          obtain ⟨gs, hgs, rfl⟩ := ih (by omega) h
          refine ⟨.run (token.toNat - 128 + 3) b :: gs, .run htoken hgs, ?_⟩
          rw [List.append_assoc, (control_token token).2 htoken]
          rfl

/-- What the decoder accepts is a list of tokens. -/
theorem decompress_tokens {s o : Bytes} {expectedSize : Nat}
    (h : decompress s expectedSize = .ok o) :
    ∃ gs, Tokens gs s ∧ (expand gs).length = expectedSize := by
  unfold decompress at h
  cases hloop : decompressLoop expectedSize s.length s [] with
  | error e =>
    rw [hloop] at h
    cases h
  | ok decoded =>
    rw [hloop] at h
    simp only [bind, Except.bind] at h
    split at h
    · cases h
    rename_i hlen
    obtain ⟨gs, hgs, rfl⟩ := decompressLoop_tokens (Nat.le_refl _) hloop
    exact ⟨gs, hgs, not_not.mp hlen⟩

/-- Tokens are read from the front. -/
theorem Tokens.append {gs gs' : List Group} {s t : Bytes} (h : Tokens gs s)
    (h' : Tokens gs' (s ++ t)) : ∃ more, gs' = gs ++ more ∧ Tokens more t := by
  induction h generalizing gs' with
  | nil => exact ⟨gs', rfl, h'⟩
  | @literal token bytes rest gs ht hlen h ih =>
    generalize hbs : token :: (bytes ++ rest) ++ t = bs at h'
    rw [List.cons_append, List.append_assoc] at hbs
    cases h' with
    | nil => cases hbs
    | literal ht' hlen' h' =>
      obtain ⟨rfl, htail⟩ := List.cons.inj hbs
      obtain ⟨rfl, rfl⟩ := List.append_inj htail (hlen.trans hlen'.symm)
      obtain ⟨more, rfl, hmore⟩ := ih h'
      exact ⟨more, rfl, hmore⟩
    | run ht' h' =>
      obtain ⟨rfl, -⟩ := List.cons.inj hbs
      omega
  | @run token byte rest gs ht h ih =>
    generalize hbs : token :: byte :: rest ++ t = bs at h'
    rw [List.cons_append, List.cons_append] at hbs
    cases h' with
    | nil => cases hbs
    | literal ht' hlen' h' =>
      obtain ⟨rfl, -⟩ := List.cons.inj hbs
      omega
    | run ht' h' =>
      obtain ⟨rfl, htail⟩ := List.cons.inj hbs
      obtain ⟨rfl, rfl⟩ := List.cons.inj htail
      obtain ⟨more, rfl, hmore⟩ := ih h'
      exact ⟨more, rfl, hmore⟩

/-- Every token has output. -/
theorem Tokens.expand_pos {gs : List Group} {s : Bytes} (h : Tokens gs s) (hs : s ≠ []) :
    0 < (expand gs).length := by
  cases h with
  | nil => exact absurd rfl hs
  | @literal token bytes rest gs ht hlen h =>
    rw [expand, List.flatMap_cons, List.length_append, Group.expand]
    omega
  | @run token byte rest gs ht h =>
    rw [expand, List.flatMap_cons, List.length_append, Group.expand, List.length_replicate]
    omega

theorem decompress_prefixFree (rawSize : Nat) : PrefixFree (decompress · rawSize) := by
  intro s t o o' hs hst
  obtain ⟨gs, hgs, hlen⟩ := decompress_tokens hs
  obtain ⟨gs', hgs', hlen'⟩ := decompress_tokens hst
  obtain ⟨more, rfl, hmore⟩ := hgs.append hgs'
  by_contra ht
  have hpos := hmore.expand_pos ht
  rw [expand, List.flatMap_append, List.length_append] at hlen'
  rw [expand] at hlen hpos
  omega

end PackBits

/-! ## LZ4 blocks -/

namespace Lz4

theorem foldl_apply_length (qs : List Sequence) (decoded : Bytes) :
    (qs.foldl Sequence.apply decoded).length =
      decoded.length + (qs.foldl Sequence.apply []).length := by
  induction qs generalizing decoded with
  | nil => rfl
  | cons q qs ih =>
    rw [List.foldl_cons, List.foldl_cons, ih (q.apply decoded), ih (q.apply []),
      Sequence.apply_length, Sequence.apply_length, List.length_nil]
    omega

theorem interpret_nil_length (literals : Bytes) : (interpret [] literals).length = literals.length := rfl

theorem interpret_cons_length (q : Sequence) (qs : List Sequence) (literals : Bytes) :
    (interpret (q :: qs) literals).length =
      q.literals.length + q.length + (interpret qs literals).length := by
  rw [interpret, interpret, List.length_append, List.length_append, List.foldl_cons,
    foldl_apply_length, Sequence.apply_length, List.length_nil]
  omega

/-- Literals at the end, and a sequence that starts with the same bytes. -/
theorem LastStored.literals_length {literals s bs rest t : Bytes} {q : Sequence}
    (h : LastStored literals s) (hq : q.Stored bs) (heq : s ++ t = bs ++ rest) :
    literals.length = q.literals.length := by
  obtain ⟨token, front, rfl, hlit, -⟩ := h
  obtain ⟨token', low, high, front', tail, n, rfl, hlit', -⟩ := hq
  simp only [List.cons_append, List.append_assoc] at heq
  obtain ⟨rfl, hafter⟩ := List.cons.inj heq
  exact (hlit.unique hlit' hafter).1

/-- A stream that goes on behind a stream has more output: where the first one ends, the second one
has a match. -/
theorem Stream.extend {qs qs' : List Sequence} {literals literals' s t : Bytes}
    (h : Stream qs literals s) (h' : Stream qs' literals' (s ++ t)) :
    t = [] ∨ (interpret qs literals).length < (interpret qs' literals').length := by
  induction h generalizing qs' with
  | @last literals s h =>
    generalize hbs : s ++ t = bs at h'
    cases h' with
    | last h' =>
      left
      obtain ⟨token, front, rfl, hlit, -⟩ := h
      obtain ⟨token', front', rfl, hlit', -⟩ := h'
      rw [List.cons_append, List.append_assoc] at hbs
      obtain ⟨rfl, heq⟩ := List.cons.inj hbs
      obtain ⟨hn, hrest⟩ := hlit.unique hlit' heq
      have hlen := congrArg List.length hrest
      rw [List.length_append] at hlen
      exact List.eq_nil_of_length_eq_zero (by omega)
    | @cons q qs' _ bs rest hq hs' =>
      right
      have hn := h.literals_length hq hbs
      obtain ⟨-, -, -, -, -, n, -, -, -, -, hlen⟩ := hq
      rw [interpret_nil_length, interpret_cons_length, hlen, minMatch]
      omega
  | @cons q qs literals bs rest hq hs ih =>
    generalize hbs : bs ++ rest ++ t = bs' at h'
    rw [List.append_assoc] at hbs
    cases h' with
    | last h' => exact (h'.not_stored hq hbs.symm).elim
    | cons hq' hs' =>
      obtain ⟨rfl, rfl⟩ := hq.unique hq' hbs
      rw [interpret_cons_length, interpret_cons_length]
      rcases ih hs' with ht | hlt
      · exact .inl ht
      · exact .inr (by omega)

/-- The output of an accepted string is not empty, so the string is a stream. -/
theorem decompress_stream {s o : Bytes} {rawSize : Nat} (hpos : 0 < rawSize)
    (hsize : rawSize < 2 ^ 64) (h : decompress s rawSize = .ok o) :
    ∃ qs literals, Stream qs literals s ∧ (interpret qs literals).length = rawSize := by
  have hmax : rawSize ≤ sizeMax := by
    rw [sizeMax]
    omega
  rcases (decompress_iff hmax).mp h with ⟨-, -, hzero⟩ | ⟨qs, literals, hs, -, -, rfl, hlen⟩
  · omega
  · exact ⟨qs, literals, hs, hlen⟩

theorem decompress_prefixFree {rawSize : Nat} (hpos : 0 < rawSize) (hsize : rawSize < 2 ^ 64) :
    PrefixFree (decompress · rawSize) := by
  intro s t o o' hs hst
  obtain ⟨qs, literals, h, hlen⟩ := decompress_stream hpos hsize hs
  obtain ⟨qs', literals', h', hlen'⟩ := decompress_stream hpos hsize hst
  rcases h.extend h' with ht | hlt
  · exact ht
  · omega

end Lz4

/-- **Compressed streams are prefix-free.**  If a string is accepted with a raw size, no strict
beginning and no strict extension of it is accepted with that size. -/
theorem streams_prefix_free (codec : CompressionCodec)
    (hcodec : codec = packbitsCodec ∨ codec = lz4BlockCodec) (rawSize : Nat) (hpos : 0 < rawSize)
    (hsize : rawSize < 2 ^ 64) (s o : Bytes) (hs : codec.decompress s rawSize = .ok o) :
    (∀ s', s' <+: s → s' ≠ s → ∀ o', codec.decompress s' rawSize ≠ .ok o') ∧
      ∀ s', s <+: s' → s' ≠ s → ∀ o', codec.decompress s' rawSize ≠ .ok o' := by
  have hfree : PrefixFree (codec.decompress · rawSize) := by
    rcases hcodec with rfl | rfl
    · exact PackBits.decompress_prefixFree rawSize
    · exact Lz4.decompress_prefixFree hpos hsize
  constructor
  · rintro s' ⟨t, rfl⟩ hne o' hs'
    rw [hfree s' t o' o hs' hs, List.append_nil] at hne
    exact hne rfl
  · rintro s' ⟨t, rfl⟩ hne o' hs'
    rw [hfree s t o o' hs hs', List.append_nil] at hne
    exact hne rfl

/-- A run of three bytes, and the same bytes with one more. -/
theorem packbits_run_alone : packbitsCodec.decompress [0x80, 97] 3 = .ok [97, 97, 97] ∧
    ∀ b o, packbitsCodec.decompress [0x80, 97, b] 3 ≠ .ok o := by
  have hrun : packbitsCodec.decompress [0x80, 97] 3 = .ok [97, 97, 97] := rfl
  refine ⟨hrun, fun b o => ?_⟩
  exact (streams_prefix_free packbitsCodec (.inl rfl) 3 (by decide) (by decide) _ _ hrun).2
    [0x80, 97, b] ⟨[b], rfl⟩ (by simp) o

end TFDB
