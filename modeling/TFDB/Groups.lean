import TFDB.Lossless
import TFDB.Writer

/-!
# PackBits streams

The tokens of section 6 of `format-v1.md`, and what the encoder makes of them.

* `Tokens` — literal groups and runs;
* `Canonical` — groups split only where the format splits them;
* `compressLoop_groups` — the encoder writes canonical groups of its input;
* `Canonical.length_run` — canonical groups stay within the declared bound;
* `packbits_codec` — both, with the round trip, and the bound check of `emit_builder`.
-/

set_option autoImplicit false

namespace TFDB

open ByteLib

namespace PackBits

/-! ## Groups -/

inductive Group
  | literal (bytes : Bytes)
  | run (count : Nat) (byte : UInt8)

/-- The bytes a group stands for. -/
def Group.expand : Group → Bytes
  | .literal bytes => bytes
  | .run count byte => List.replicate count byte

def expand (gs : List Group) : Bytes := gs.flatMap Group.expand

/-- The tokens of groups. -/
inductive Tokens : List Group → Bytes → Prop
  | nil : Tokens [] []
  | literal {token : UInt8} {bytes rest : Bytes} {gs : List Group} (ht : token.toNat < 128)
      (hlen : bytes.length = token.toNat + 1) (h : Tokens gs rest) :
      Tokens (.literal bytes :: gs) (token :: (bytes ++ rest))
  | run {token byte : UInt8} {rest : Bytes} {gs : List Group} (ht : 128 ≤ token.toNat)
      (h : Tokens gs rest) :
      Tokens (.run (token.toNat - 128 + 3) byte :: gs) (token :: byte :: rest)

/-- No byte stands three times in a row. -/
def NoTriple (bs : Bytes) : Prop :=
  ∀ i, i + 2 < bs.length → ¬ (bs[i]? = bs[i + 1]? ∧ bs[i + 1]? = bs[i + 2]?)

/-- The groups of the format: literals without a run of three, up to 128 of them or up to the next
run, and runs of 3 to 130 that end where the byte changes or at 130. -/
inductive Canonical : List Group → Prop
  | nil : Canonical []
  | literal {bytes : Bytes} {gs : List Group} (hpos : 1 ≤ bytes.length) (hlen : bytes.length ≤ 128)
      (hruns : NoTriple bytes)
      (hnext : bytes.length < 128 → gs = [] ∨ ∃ count byte gs', gs = .run count byte :: gs')
      (h : Canonical gs) : Canonical (.literal bytes :: gs)
  | run {count : Nat} {byte : UInt8} {gs : List Group} (hpos : 3 ≤ count) (hlen : count ≤ 130)
      (hnext : count < 130 → (expand gs).head? ≠ some byte) (h : Canonical gs) :
      Canonical (.run count byte :: gs)

/-- Tokens are read in one way. -/
theorem Tokens.unique {gs gs' : List Group} {bs : Bytes} (h : Tokens gs bs) (h' : Tokens gs' bs) :
    gs = gs' := by
  induction h generalizing gs' with
  | nil => cases h'; rfl
  | @literal token bytes rest gs ht hlen h ih =>
    generalize hbs : token :: (bytes ++ rest) = bs at h'
    cases h' with
    | nil => cases hbs
    | literal ht' hlen' h' =>
      obtain ⟨rfl, htail⟩ := List.cons.inj hbs
      obtain ⟨rfl, rfl⟩ := List.append_inj htail (hlen.trans hlen'.symm)
      rw [ih h']
    | run ht' h' =>
      obtain ⟨rfl, -⟩ := List.cons.inj hbs
      omega
  | @run token byte rest gs ht h ih =>
    generalize hbs : token :: byte :: rest = bs at h'
    cases h' with
    | nil => cases hbs
    | literal ht' hlen' h' =>
      obtain ⟨rfl, -⟩ := List.cons.inj hbs
      omega
    | run ht' h' =>
      obtain ⟨rfl, htail⟩ := List.cons.inj hbs
      obtain ⟨rfl, rfl⟩ := List.cons.inj htail
      rw [ih h']

/-! ## The size of canonical groups -/

/-- Every group of 128 literals takes one byte more, and so may the last one; a run in front saves
one. -/
theorem Canonical.length_run {gs : List Group} (hc : Canonical gs) {bs : Bytes} (h : Tokens gs bs) :
    bs.length ≤ (expand gs).length + ((expand gs).length + 127) / 128 ∧
    ((∃ count byte gs', gs = .run count byte :: gs') →
      bs.length + 1 ≤ (expand gs).length + ((expand gs).length + 127) / 128) := by
  induction hc generalizing bs with
  | nil =>
    cases h
    refine ⟨Nat.zero_le _, ?_⟩
    rintro ⟨count, byte, gs', hgs⟩
    cases hgs
  | @literal bytes gs hpos hlen hruns hnext hc ih =>
    cases h with
    | literal ht htok h =>
      obtain ⟨ih₁, ih₂⟩ := ih h
      refine ⟨?_, fun ⟨count, byte, gs', hgs⟩ => by cases hgs⟩
      simp only [expand, List.flatMap_cons, Group.expand, List.length_append,
        List.length_cons] at ih₁ ih₂ ⊢
      by_cases hfull : bytes.length < 128
      · -- a run makes up for the byte of this group, or this is the last one
        rcases hnext hfull with rfl | hrun
        · cases h
          simp only [List.flatMap_nil, List.length_nil]
          omega
        · have := ih₂ hrun
          omega
      · omega
  | @run count byte gs hpos hlen hnext hc ih =>
    cases h with
    | run ht h =>
      obtain ⟨ih₁, -⟩ := ih h
      simp only [expand, List.flatMap_cons, Group.expand, List.length_append, List.length_cons,
        List.length_replicate] at ih₁ ⊢
      exact ⟨by omega, fun _ => by omega⟩

/-! ## The encoder -/

/-- The bytes of a run are equal, and the byte behind it differs unless the run is full. -/
theorem repeated_run (rest : Bytes) (h : rest ≠ []) :
    (∀ i < repeated rest, rest[i]? = rest[0]?) ∧
    (repeated rest < 130 → rest[repeated rest]? ≠ rest[0]?) := by
  cases rest with
  | nil => exact absurd rfl h
  | cons b tail =>
    constructor
    · intro i hi
      rw [repeated_eq b tail, List.getElem?_append_left (by rw [List.length_replicate]; exact hi),
        List.getElem?_replicate_of_lt hi, List.getElem?_append_left (by rw [List.length_replicate]; omega),
        List.getElem?_replicate_of_lt (by omega)]
    · intro hlt
      have hn : repeated (b :: tail) = ((tail.take 129).takeWhile (· == b)).length + 1 := by
        rw [repeated, Nat.add_comm]
      have hnot := List.head?_dropWhile_not (· == b) (tail.take 129)
      have hsplit := @List.takeWhile_append_dropWhile _ (· == b) (tail.take 129)
      generalize (tail.take 129).takeWhile (· == b) = t at hn hsplit
      generalize (tail.take 129).dropWhile (· == b) = d at hnot hsplit
      have hget : (tail.take 129)[t.length]? = d.head? := by
        rw [← hsplit, List.getElem?_append_right (Nat.le_refl _), Nat.sub_self, List.head?_eq_getElem?]
      rw [List.getElem?_take_of_lt (by omega)] at hget
      rw [hn, List.getElem?_cons_succ, hget, List.getElem?_cons_zero]
      intro hd
      rw [hd] at hnot
      simp at hnot

/-- A literal group of `count` bytes of `rest`: no three equal bytes in it, and it ends where the
byte changes unless it is full. -/
structure LiteralGroup (rest : Bytes) (count : Nat) : Prop where
  pos : 1 ≤ count
  fits : count ≤ rest.length
  full : count ≤ 128
  runs : ∀ i, i + 2 < count → ¬ (rest[i]? = rest[i + 1]? ∧ rest[i + 1]? = rest[i + 2]?)
  boundary : count < 128 → rest[count]? ≠ rest[count - 1]?

/-- The group goes on with a run of one or two. -/
theorem LiteralGroup.extend {rest : Bytes} {count : Nat} (h : LiteralGroup rest count)
    (hlt : count < rest.length) (hroom : count < 128) (hrun : repeated (rest.drop count) < 3) :
    LiteralGroup rest (count + min (repeated (rest.drop count)) (128 - count)) := by
  have hpos := h.pos
  have hne : rest.drop count ≠ [] := by
    rw [ne_eq, List.drop_eq_nil_iff]
    omega
  obtain ⟨hr1, hr2, -⟩ := repeated_bounds _ hne
  obtain ⟨hsame, hend⟩ := repeated_run _ hne
  rw [List.length_drop] at hr2
  have hbound := h.boundary hroom
  simp only [List.getElem?_drop] at hsame hend
  refine ⟨by omega, by omega, by omega, fun i hi => ?_, fun hlt' => ?_⟩
  · by_cases hold : i + 2 < count
    · exact h.runs i hold
    · -- the three bytes lie across the old end of the group
      rintro ⟨h01, h12⟩
      rcases Nat.lt_or_ge (i + 1) count with hi1 | hi1
      · obtain rfl : count = i + 2 := by omega
        exact hbound (by rw [← h12]; rfl)
      · obtain rfl : count = i + 1 := by omega
        exact hbound (by rw [← h01]; rfl)
  · have hmin : min (repeated (rest.drop count)) (128 - count) = repeated (rest.drop count) := by
      omega
    rw [hmin]
    have hlast := hsame (repeated (rest.drop count) - 1) (by omega)
    rw [show count + (repeated (rest.drop count) - 1) =
      count + repeated (rest.drop count) - 1 by omega] at hlast
    rw [hlast]
    exact hend (by omega)

/-- The inner loop ends with a group of 128, at the end of the input or in front of a run. -/
theorem literalCount_group {rest : Bytes} (steps : Nat) {count : Nat} (h : LiteralGroup rest count)
    (hsteps : 128 ≤ steps + count) :
    LiteralGroup rest (literalCount rest steps count) ∧
      (literalCount rest steps count < 128 → literalCount rest steps count = rest.length ∨
        3 ≤ repeated (rest.drop (literalCount rest steps count))) := by
  induction steps generalizing count with
  | zero => exact ⟨h, fun hlt => absurd hlt (by rw [literalCount]; omega)⟩
  | succ steps ih =>
    rw [literalCount]
    split
    · rename_i hc
      dsimp only
      split
      · rename_i hrun
        exact ⟨h, fun _ => .inr hrun⟩
      · rename_i hrun
        have hne : rest.drop count ≠ [] := by
          rw [ne_eq, List.drop_eq_nil_iff]
          omega
        obtain ⟨hr1, -, -⟩ := repeated_bounds _ hne
        exact ih (h.extend hc.1 hc.2 (by omega)) (by omega)
    · rename_i hc
      refine ⟨h, fun hlt => .inl ?_⟩
      have := h.fits
      omega

/-- The first run starts a literal group. -/
theorem LiteralGroup.first {rest : Bytes} (hne : rest ≠ []) (hrun : repeated rest < 3) :
    LiteralGroup rest (repeated rest) := by
  obtain ⟨hr1, hr2, -⟩ := repeated_bounds rest hne
  obtain ⟨hsame, hend⟩ := repeated_run rest hne
  refine ⟨hr1, hr2, by omega, fun i hi => by omega, fun _ => ?_⟩
  rw [hsame (repeated rest - 1) (by omega)]
  exact hend (by omega)

theorem run_token_toNat : ∀ n < 128, (UInt8.ofNat (0x80 ||| n)).toNat = 128 + n := by decide

/-- **The encoder writes canonical groups of its input.** -/
theorem compressLoop_groups (steps : Nat) (rest : Bytes) (hsteps : rest.length ≤ steps) :
    ∃ gs, Tokens gs (compressLoop steps rest) ∧ expand gs = rest ∧ Canonical gs ∧
      (3 ≤ repeated rest → rest ≠ [] → ∃ count byte gs', gs = .run count byte :: gs') := by
  induction steps generalizing rest with
  | zero =>
    obtain rfl : rest = [] := List.length_eq_zero_iff.mp (by omega)
    exact ⟨[], .nil, rfl, .nil, fun _ h => absurd rfl h⟩
  | succ steps ih =>
    cases rest with
    | nil => exact ⟨[], .nil, rfl, .nil, fun _ h => absurd rfl h⟩
    | cons b tail =>
      have hne : b :: tail ≠ [] := List.cons_ne_nil _ _
      obtain ⟨r1, r2, r3⟩ := repeated_bounds (b :: tail) hne
      rw [compressLoop]
      dsimp only
      split
      · rename_i hrun
        rw [Nat.min_eq_left r3]
        obtain ⟨gs, htok, hexp, hcan, -⟩ := ih ((b :: tail).drop (repeated (b :: tail))) (by
          rw [List.length_drop]
          omega)
        have htoken := run_token_toNat (repeated (b :: tail) - 3) (by omega)
        have hgroup := @Tokens.run (UInt8.ofNat (0x80 ||| (repeated (b :: tail) - 3))) b _ _
          (by omega) htok
        rw [htoken, show 128 + (repeated (b :: tail) - 3) - 128 + 3 = repeated (b :: tail) by omega]
          at hgroup
        refine ⟨_, hgroup, ?_, .run hrun r3 (fun hlt => ?_) hcan, fun _ _ => ⟨_, _, _, rfl⟩⟩
        · rw [expand, List.flatMap_cons, ← expand, hexp]
          exact (repeated_eq b tail).symm
        · rw [hexp, List.head?_eq_getElem?, List.getElem?_drop, Nat.add_zero]
          exact (repeated_run (b :: tail) hne).2 hlt
      · rename_i hrun
        obtain ⟨hlit, hstop⟩ := literalCount_group 128 (LiteralGroup.first hne (by omega))
          (by omega)
        generalize literalCount (b :: tail) 128 (repeated (b :: tail)) = count at hlit hstop ⊢
        have hpos := hlit.pos
        have hfull := hlit.full
        have hfits := hlit.fits
        obtain ⟨gs, htok, hexp, hcan, hruns⟩ := ih ((b :: tail).drop count) (by
          rw [List.length_drop]
          omega)
        have htoken := (literal_token (count - 1) (by omega)).2
        have htake : ((b :: tail).take count).length = count := by
          rw [List.length_take]
          omega
        refine ⟨.literal ((b :: tail).take count) :: gs,
          .literal (by rw [htoken]; omega) (by rw [htake, htoken]; omega) htok, ?_, ?_,
          fun h _ => absurd h hrun⟩
        · rw [expand, List.flatMap_cons, ← expand, hexp]
          exact List.take_append_drop count (b :: tail)
        · refine .literal (by rw [htake]; omega) (by rw [htake]; omega) ?_ (fun hlt => ?_) hcan
          · intro i hi
            rw [htake] at hi
            rw [List.getElem?_take_of_lt (by omega), List.getElem?_take_of_lt (by omega),
              List.getElem?_take_of_lt hi]
            exact hlit.runs i hi
          · rw [htake] at hlt
            rcases hstop hlt with hend | hrun'
            · left
              have hnil : (b :: tail).drop count = [] := List.drop_eq_nil_iff.mpr (by omega)
              rw [hnil] at htok
              cases steps <;> exact htok.unique .nil
            · by_cases hnil : (b :: tail).drop count = []
              · left
                rw [hnil] at htok
                cases steps <;> exact htok.unique .nil
              · exact .inr (hruns hrun' hnil)

/-- The encoder never fails. -/
theorem compress_groups (x : Bytes) : ∃ y gs, compress x = .ok y ∧ Tokens gs y ∧ expand gs = x ∧
    Canonical gs := by
  obtain ⟨gs, htok, hexp, hcan, -⟩ := compressLoop_groups x.length x (Nat.le_refl _)
  exact ⟨_, gs, rfl, htok, hexp, hcan⟩

theorem maxCompressedSize_eq {n : Nat} (h : n + (n + 127) / 128 ≤ sizeMax) :
    maxCompressedSize n = n + (n + 127) / 128 := by
  unfold maxCompressedSize
  dsimp only
  split <;> split <;> omega

end PackBits

/-- **The PackBits codec.**  Compression succeeds with canonical groups of the input, within the
declared bound, and decompression is its inverse; so the checks of `emit_builder` on the output
never fail. -/
theorem packbits_codec (x : Bytes) :
    ∃ y gs, PackBits.compress x = .ok y ∧ PackBits.decompress y x.length = .ok x ∧
      y.length ≤ x.length + (x.length + 127) / 128 ∧
      (x.length + (x.length + 127) / 128 ≤ sizeMax →
        packbitsCodec.maxCompressedSize x.length = x.length + (x.length + 127) / 128) ∧
      PackBits.Tokens gs y ∧ (∀ gs', PackBits.Tokens gs' y → gs' = gs) ∧
      PackBits.expand gs = x ∧ PackBits.Canonical gs ∧
      ∀ env options, env.codecFor options.compression options.compressionVersion =
        some packbitsCodec → x ≠ [] → x.length < 2 ^ 32 →
        ∃ stored, Writer.packBuilder env options x = .ok stored := by
  obtain ⟨y, gs, hy, htok, hexp, hcan⟩ := PackBits.compress_groups x
  have hlen := (hcan.length_run htok).1
  rw [hexp] at hlen
  refine ⟨y, gs, hy, PackBits.decompress_compress x hy, hlen, PackBits.maxCompressedSize_eq, htok,
    fun gs' h' => h'.unique htok, hexp, hcan, fun env options hcodec hne hsize => ?_⟩
  have hbound := PackBits.maxCompressedSize_eq (n := x.length) (by rw [sizeMax]; omega)
  have hy0 : y ≠ [] := by
    rintro rfl
    cases htok
    exact hne hexp.symm
  unfold Writer.packBuilder
  rw [hcodec]
  dsimp only
  split
  · exact ⟨_, rfl⟩
  · rw [show packbitsCodec.compress x = .ok y from hy]
    simp only [bind, Except.bind]
    rw [if_neg (by rw [show packbitsCodec.maxCompressedSize x.length = _ from hbound]; omega),
      if_neg hy0]
    split <;> exact ⟨_, rfl⟩

end TFDB
