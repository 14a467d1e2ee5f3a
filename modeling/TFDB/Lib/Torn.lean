import Mathlib.Data.List.GetD
import TFDB.Lib.Medium

/-!
# Torn writes

What is left of writes of which any bytes may be lost.

* `Torn` — every byte of `front` is there, or zero; writes that start with `front` keep this whichever
  of their bytes arrive.
* `Refills` — a write that puts bytes back which are there already, or touches none of them.
* `Transfers`, `mixes_transfers` — a write in several transfers leaves what the one write leaves.
-/

set_option autoImplicit false

namespace ByteLib

/-! ## Torn bytes -/

/-- Every byte of `front` is at its place behind `off`, or this byte is zero. -/
def Torn (front : Bytes) (m : Image) (off : Nat) : Prop :=
  ∀ i < front.length, m.byte (off + i) = 0 ∨ m.byte (off + i) = front.getD i 0

/-- A write of `bs` at `o` starts with `front` at `off`, or touches none of its bytes. -/
def Starts (front : Bytes) (off o : Nat) (bs : Bytes) : Prop :=
  (o + bs.length ≤ off ∨ off + front.length ≤ o) ∨ (o = off ∧ front <+: bs)

/-- A write of `ws` at `o` touches none of the bytes `bs` at `off`, or writes a part of them. -/
def Refills (off : Nat) (bs : Bytes) (o : Nat) (ws : Bytes) : Prop :=
  (o + ws.length ≤ off ∨ off + bs.length ≤ o) ∨ (o = off ∧ ws <+: bs)

theorem prefix_getD {xs ys : Bytes} (h : xs <+: ys) {i : Nat} (hi : i < xs.length) :
    ys.getD i 0 = xs.getD i 0 := by
  obtain ⟨rest, rfl⟩ := h
  rw [List.getD_eq_getElem?_getD, List.getElem?_append_left hi, ← List.getD_eq_getElem?_getD]

theorem Refills.window {m : Image} {off o : Nat} {bs ws : Bytes} (h : Refills off bs o ws)
    (hm : m.window off bs.length = bs) : (m.write o ws).window off bs.length = bs := by
  rcases h with hout | ⟨rfl, rest, rfl⟩
  · rw [Image.window_write_out (by omega)]
    exact hm
  · rw [List.length_append, Image.window_add] at hm ⊢
    obtain ⟨-, hrest⟩ := List.append_inj hm (by rw [Image.window_length])
    rw [Image.window_write_same _ rfl, Image.window_write_out (by omega), hrest]

theorem window_eq_iff {m : Image} {off : Nat} {bs : Bytes} :
    m.window off bs.length = bs ↔ ∀ i < bs.length, m.byte (off + i) = bs.getD i 0 := by
  constructor
  · intro h i hi
    rw [← Image.window_getD m hi, h]
  · intro h
    refine List.ext_getElem? fun i => ?_
    rw [Image.window_getElem?]
    split
    · rename_i hi
      rw [h i hi, List.getD_eq_getElem?_getD, List.getElem?_eq_getElem hi]
      rfl
    · rename_i hi
      exact (List.getElem?_eq_none (by omega)).symm

/-! ## Pending writes -/

section
variable {ι : Type} {enc : ι → Bytes} {d : Disk ι} {m : Image}

theorem Write.getD_bytes {w : Write ι} {i : Nat} (h : i < (w.bytes enc).length) :
    (w.bytes enc).getD i 0 = (enc w.item).getD i 0 :=
  (prefix_getD (List.take_prefix w.len (enc w.item)) h).symm

theorem Write.length_bytes (w : Write ι) : (w.bytes enc).length ≤ (enc w.item).length :=
  List.length_take_le' ..

/-- What was torn at most is still, whichever bytes a power cut keeps. -/
theorem Disk.MixCut.torn (h : d.MixCut enc m) {front : Bytes} {off : Nat}
    (h0 : Torn front d.durable off) (hw : ∀ w ∈ d.pending, Starts front off w.off (enc w.item)) :
    Torn front m off := by
  intro i hi
  rcases h.2 (off + i) with hb | ⟨w, hmem, ⟨h1, h2⟩, hb⟩
  · rw [hb]
    exact h0 i hi
  · have hlen : (w.bytes enc).length ≤ _ := w.length_bytes
    rcases hw w hmem with hout | ⟨ho, hpre⟩
    · omega
    · right
      rw [hb, Write.getD_bytes (by omega), show off + i - w.off = i by omega]
      exact prefix_getD hpre hi

/-- Bytes that are there stay, as long as no pending write puts others in their place. -/
theorem Disk.MixCut.refilled (h : d.MixCut enc m) {off : Nat} {bs : Bytes}
    (h0 : d.durable.window off bs.length = bs)
    (hw : ∀ w ∈ d.pending, Refills off bs w.off (w.bytes enc)) : m.window off bs.length = bs := by
  rw [window_eq_iff] at h0 ⊢
  intro i hi
  rcases h.2 (off + i) with hb | ⟨w, hmem, ⟨h1, h2⟩, hb⟩
  · rw [hb]
    exact h0 i hi
  · rcases hw w hmem with hout | ⟨ho, hpre⟩
    · omega
    · rw [hb, show off + i - w.off = i by omega]
      exact (prefix_getD hpre (by omega)).symm

/-- Bytes that are there, or that one of the pending writes puts there as a whole, are seen as long
as no pending write puts other bytes in their place. -/
theorem Disk.volatile_refilled {off : Nat} {bs : Bytes}
    (hall : ∀ w ∈ d.pending, Refills off bs w.off (w.bytes enc))
    (h : d.durable.window off bs.length = bs ∨
      ∃ w ∈ d.pending, w.off = off ∧ w.bytes enc = bs) :
    (d.volatile enc).window off bs.length = bs := by
  unfold Disk.volatile Disk.overlay
  generalize d.pending = ws at hall h
  generalize d.durable = base at h
  induction ws generalizing base with
  | nil =>
    rcases h with h | ⟨w, hw, -⟩
    · exact h
    · cases hw
  | cons w ws ih =>
    apply ih (fun w' hw' => hall w' (List.mem_cons_of_mem _ hw'))
    rcases h with h | ⟨w', hw', hoff, hbytes⟩
    · left
      exact (hall w (List.mem_cons_self ..)).window h
    · rcases List.mem_cons.mp hw' with rfl | hw'
      · left
        show (base.write w'.off (w'.bytes enc)).window off bs.length = bs
        rw [hoff, hbytes]
        exact Image.window_write_same _ rfl
      · right
        exact ⟨w', hw', hoff, hbytes⟩

end

/-! ## Writes in several transfers -/

/-- One of the writes puts this byte at `x`. -/
def PutBy (ws : List (Nat × Bytes)) (x : Nat) (b : UInt8) : Prop :=
  ∃ w ∈ ws, w.1 ≤ x ∧ x < w.1 + w.2.length ∧ b = w.2.getD (x - w.1) 0

/-- The transfers put together the bytes `bs` at `off`, each of them at its place. -/
def Transfers (off : Nat) (bs : Bytes) (ts : List (Nat × Bytes)) : Prop :=
  ∀ x b, PutBy ts x b ↔ PutBy [(off, bs)] x b

theorem putBy_append {ws vs : List (Nat × Bytes)} {x : Nat} {b : UInt8} :
    PutBy (ws ++ vs) x b ↔ PutBy ws x b ∨ PutBy vs x b := by
  simp only [PutBy, List.mem_append, or_and_right, exists_or]

theorem putBy_singleton {off x : Nat} {bs : Bytes} {b : UInt8} :
    PutBy [(off, bs)] x b ↔ off ≤ x ∧ x < off + bs.length ∧ b = bs.getD (x - off) 0 := by
  simp [PutBy]

theorem Transfers.nil (off : Nat) : Transfers off [] [] := by
  intro x b
  rw [putBy_singleton]
  constructor
  · rintro ⟨w, hw, -⟩
    cases hw
  · rintro ⟨h1, h2, -⟩
    rw [List.length_nil] at h2
    omega

/-- A transfer goes on where the ones before it have stopped. -/
theorem Transfers.snoc {off : Nat} {bs more : Bytes} {ts : List (Nat × Bytes)}
    (h : Transfers off bs ts) : Transfers off (bs ++ more) (ts ++ [(off + bs.length, more)]) := by
  intro x b
  rw [putBy_append, h x b, putBy_singleton, putBy_singleton, putBy_singleton, List.length_append]
  by_cases hx : x < off + bs.length
  · rw [or_iff_left (by omega)]
    have front (h1 : off ≤ x) : (bs ++ more).getD (x - off) 0 = bs.getD (x - off) 0 :=
      List.getD_append _ _ _ _ (by omega)
    constructor
    · rintro ⟨h1, h2, h3⟩
      exact ⟨h1, by omega, h3.trans (front h1).symm⟩
    · rintro ⟨h1, h2, h3⟩
      exact ⟨h1, hx, h3.trans (front h1)⟩
  · rw [or_iff_right (by omega), List.getD_append_right _ _ _ _ (by omega), Nat.sub_sub]
    constructor
    · rintro ⟨h1, h2, h3⟩
      exact ⟨by omega, by omega, h3⟩
    · rintro ⟨h1, h2, h3⟩
      exact ⟨by omega, by omega, h3⟩

/-- Every byte of `m` is the one of `base`, or one of the writes put it there. -/
def Mixes (base : Image) (ws : List (Nat × Bytes)) (m : Image) : Prop :=
  m.size = base.size ∧ ∀ x, m.byte x = base.byte x ∨ PutBy ws x (m.byte x)

theorem Disk.mixCut_iff {ι : Type} {enc : ι → Bytes} {d : Disk ι} {m : Image} :
    d.MixCut enc m ↔ Mixes d.durable (d.pending.map fun w => (w.off, w.bytes enc)) m := by
  simp only [Disk.MixCut, Mixes, PutBy, Write.Covers, List.mem_map, exists_exists_and_eq_and, and_assoc]

/-- **A power cut does not tell the transfers of a write from one write.** -/
theorem mixes_transfers {off : Nat} {bs : Bytes} {ts : List (Nat × Bytes)} (h : Transfers off bs ts)
    (base : Image) (ws : List (Nat × Bytes)) (m : Image) :
    Mixes base (ws ++ ts) m ↔ Mixes base (ws ++ [(off, bs)]) m := by
  simp only [Mixes, putBy_append, h _ _]

end ByteLib
