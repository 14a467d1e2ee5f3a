import Mathlib.Tactic

/-!
# Byte strings with little-endian fields

A small library for fixed binary layouts:

* `leBytes` / `leNat` — little-endian numbers of a given width, inverse to each other;
* `slice` / `put` — reading and overwriting a window of a byte string;
* `layout` — a record built from a table of `(offset, bytes)` fields in offset order, with
  zero bytes in the gaps.

`slice_layout` reads any field of a well placed table back, `slice_layout_gap` reads the
zeros of a gap, and `slice_put_*` say which windows an overwrite leaves alone.
-/

set_option autoImplicit false

namespace ByteLib

abbrev Bytes := List UInt8

/-! ## Little-endian numbers -/

/-- The `n` low bytes of `v`, least significant first. -/
def leBytes : Nat → Nat → Bytes
  | 0, _ => []
  | n + 1, v => UInt8.ofNat v :: leBytes n (v / 256)

/-- The number a little-endian byte string denotes. -/
def leNat : Bytes → Nat
  | [] => 0
  | b :: bs => b.toNat + 256 * leNat bs

@[simp] theorem leBytes_length : ∀ n v, (leBytes n v).length = n
  | 0, _ => rfl
  | n + 1, v => by simp [leBytes, leBytes_length n]

theorem leNat_leBytes : ∀ n v, leNat (leBytes n v) = v % 256 ^ n
  | 0, v => by simp [leBytes, leNat, Nat.mod_one]
  | n + 1, v => by
    simp only [leBytes, leNat, leNat_leBytes n, UInt8.toNat_ofNat']
    rw [Nat.pow_succ 256, Nat.mul_comm (256 ^ n) 256, Nat.mod_mul]

theorem leNat_lt : ∀ bs : Bytes, leNat bs < 256 ^ bs.length
  | [] => by simp [leNat]
  | b :: bs => by
    have hb := b.toNat_lt
    have ih := leNat_lt bs
    simp only [leNat, List.length_cons, Nat.pow_succ]
    omega

theorem leBytes_leNat : ∀ bs : Bytes, leBytes bs.length (leNat bs) = bs
  | [] => rfl
  | b :: bs => by
    have hb := b.toNat_lt
    have hq : (b.toNat + 256 * leNat bs) / 256 = leNat bs := by omega
    have hr : UInt8.ofNat (b.toNat + 256 * leNat bs) = b := by
      apply UInt8.toNat_inj.mp
      rw [UInt8.toNat_ofNat']
      omega
    simp only [List.length_cons, leBytes, leNat, hq, hr, leBytes_leNat bs]

/-- Numbers of one width have different bytes. -/
theorem leNat_inj {a b : Bytes} (hl : a.length = b.length) (h : leNat a = leNat b) : a = b := by
  calc a = leBytes a.length (leNat a) := (leBytes_leNat a).symm
    _ = leBytes b.length (leNat b) := by rw [hl, h]
    _ = b := leBytes_leNat b

/-! ## Windows -/

/-- The window of `n` bytes at `off`. -/
def slice (bs : Bytes) (off n : Nat) : Bytes := (bs.drop off).take n

/-- `bs` with the bytes from `off` on replaced by `x`. -/
def put (bs : Bytes) (off : Nat) (x : Bytes) : Bytes :=
  bs.take off ++ x ++ bs.drop (off + x.length)

theorem slice_length {bs : Bytes} {off n : Nat} (h : off + n ≤ bs.length) :
    (slice bs off n).length = n := by
  simp [slice]; omega

theorem put_length {bs x : Bytes} {off : Nat} (h : off + x.length ≤ bs.length) :
    (put bs off x).length = bs.length := by
  simp [put]; omega

theorem slice_put_same {bs x : Bytes} {off n : Nat} (h : off + x.length ≤ bs.length)
    (hn : n = x.length) : slice (put bs off x) off n = x := by
  subst hn
  have hl : (bs.take off).length = off := by simp; omega
  simp [slice, put, hl]

theorem slice_put_before {bs x : Bytes} {off o n : Nat} (h : off + x.length ≤ bs.length)
    (hd : o + n ≤ off) : slice (put bs off x) o n = slice bs o n := by
  have hl : (bs.take off).length = off := by simp; omega
  simp only [slice, put, List.append_assoc]
  rw [List.drop_append_of_le_length (by omega), List.take_append_of_le_length (by simp; omega),
    List.drop_take, List.take_take]
  congr 1
  omega

theorem slice_put_after {bs x : Bytes} {off o n : Nat} (h : off + x.length ≤ bs.length)
    (hd : off + x.length ≤ o) : slice (put bs off x) o n = slice bs o n := by
  have hl : (bs.take off ++ x).length = off + x.length := by simp; omega
  simp only [slice, put]
  rw [List.drop_append, List.drop_of_length_le (by omega), hl, List.nil_append, List.drop_drop]
  congr 2
  omega

/-- A byte string cut at a window. -/
theorem eq_take_slice_drop (bs : Bytes) (off n : Nat) :
    bs = bs.take off ++ (slice bs off n ++ bs.drop (off + n)) := by
  rw [slice, ← List.drop_drop, List.take_append_drop, List.take_append_drop]

/-- A slice that reaches the end. -/
theorem slice_drop {bs : Bytes} {o n : Nat} (h : bs.length ≤ o + n) : slice bs o n = bs.drop o :=
  List.take_of_length_le (by rw [List.length_drop]; omega)

theorem slice_append_left {a b : Bytes} {o k : Nat} (h : o + k ≤ a.length) :
    slice (a ++ b) o k = slice a o k := by
  simp only [slice]
  rw [List.drop_append_of_le_length (by omega),
    List.take_append_of_le_length (by rw [List.length_drop]; omega)]

theorem slice_take {bs : Bytes} {n o k : Nat} (h : o + k ≤ n) :
    slice (bs.take n) o k = slice bs o k := by
  simp only [slice, List.drop_take, List.take_take]
  rw [show min k (n - o) = k by omega]

/-- A window stored again. -/
theorem put_slice {bs : Bytes} {o k : Nat} (h : o + k ≤ bs.length) : put bs o (slice bs o k) = bs := by
  have hcut := eq_take_slice_drop bs o k
  rw [put, slice_length h, List.append_assoc]
  exact hcut.symm

theorem slice_slice {bs : Bytes} {d n o k : Nat} (h : o + k ≤ n) :
    slice (slice bs d n) o k = slice bs (d + o) k := by
  simp only [slice, List.drop_take, List.drop_drop, List.take_take]
  rw [show min k (n - o) = k by omega]

theorem getElem?_put {bs x : Bytes} {o : Nat} (h : o + x.length ≤ bs.length) (i : Nat) :
    (put bs o x)[i]? = if o ≤ i ∧ i < o + x.length then x[i - o]? else bs[i]? := by
  have hl : (bs.take o).length = o := by
    rw [List.length_take]
    omega
  rw [put, List.append_assoc]
  by_cases h1 : i < o
  · rw [List.getElem?_append_left (by omega), if_neg (by omega), List.getElem?_take_of_lt h1]
  rw [List.getElem?_append_right (by omega), hl]
  by_cases h2 : i < o + x.length
  · rw [List.getElem?_append_left (by omega), if_pos (by omega)]
  · rw [List.getElem?_append_right (by omega), if_neg (by omega), List.getElem?_drop]
    congr 1
    omega

/-- Replacements of disjoint windows commute. -/
theorem put_comm {bs x y : Bytes} {c o : Nat} (hc : c + x.length ≤ bs.length)
    (ho : o + y.length ≤ bs.length) (hd : o + y.length ≤ c ∨ c + x.length ≤ o) :
    put (put bs o y) c x = put (put bs c x) o y := by
  refine List.ext_getElem? fun i => ?_
  rw [getElem?_put (by rw [put_length ho]; exact hc), getElem?_put ho,
    getElem?_put (by rw [put_length hc]; exact ho), getElem?_put hc]
  by_cases h1 : c ≤ i ∧ i < c + x.length
  · rw [if_pos h1, if_neg (by omega), if_pos h1]
  · rw [if_neg h1, if_neg h1]

/-- A replacement hides one inside its window. -/
theorem put_put_inside {bs x y : Bytes} {c o : Nat} (hc : c + x.length ≤ bs.length)
    (ho : c ≤ o) (hy : o + y.length ≤ c + x.length) : put (put bs o y) c x = put bs c x := by
  have hin : o + y.length ≤ bs.length := by omega
  refine List.ext_getElem? fun i => ?_
  rw [getElem?_put (by rw [put_length hin]; exact hc), getElem?_put hin, getElem?_put hc]
  by_cases h1 : c ≤ i ∧ i < c + x.length
  · rw [if_pos h1, if_pos h1]
  · rw [if_neg h1, if_neg h1, if_neg (by omega)]

/-! ## Field tables -/

/-- `n` zero bytes. -/
def zeros (n : Nat) : Bytes := List.replicate n 0

@[simp] theorem zeros_length (n : Nat) : (zeros n).length = n := by simp [zeros]

/-- The bytes from `pos` to `n` of the record with the given fields. -/
def layout (n : Nat) : Nat → List (Nat × Bytes) → Bytes
  | pos, [] => zeros (n - pos)
  | pos, (o, x) :: fs => zeros (o - pos) ++ (x ++ layout n (o + x.length) fs)

/-- The fields follow each other in offset order and end within the record. -/
def Placed (n : Nat) : Nat → List (Nat × Bytes) → Prop
  | pos, [] => pos ≤ n
  | pos, (o, x) :: fs => pos ≤ o ∧ Placed n (o + x.length) fs

theorem Placed.pos_le {n : Nat} : ∀ {fs : List (Nat × Bytes)} {pos : Nat}, Placed n pos fs → pos ≤ n
  | [], _, h => h
  | (o, x) :: fs, pos, h => by
    have := Placed.pos_le h.2
    have := h.1
    omega

theorem layout_length {n : Nat} : ∀ {fs : List (Nat × Bytes)} {pos : Nat}, Placed n pos fs →
    (layout n pos fs).length = n - pos
  | [], _, _ => by simp [layout]
  | (o, x) :: fs, pos, h => by
    have := Placed.pos_le h.2
    have := h.1
    simp only [layout, List.length_append, zeros_length, layout_length h.2]
    omega

theorem slice_layout_aux {n : Nat} : ∀ {fs : List (Nat × Bytes)} {pos o : Nat} {x : Bytes},
    Placed n pos fs → (o, x) ∈ fs →
      pos ≤ o ∧ slice (layout n pos fs) (o - pos) x.length = x
  | [], _, _, _, _, hm => by cases hm
  | (o', y) :: fs, pos, o, x, h, hm => by
    rcases List.mem_cons.mp hm with heq | hm
    · cases heq
      refine ⟨h.1, ?_⟩
      simp [slice, layout]
    · obtain ⟨hle, hs⟩ := slice_layout_aux h.2 hm
      have h1 := h.1
      refine ⟨by omega, ?_⟩
      have hz : (zeros (o' - pos) ++ y).length = o' + y.length - pos := by simp; omega
      rw [layout, ← List.append_assoc, slice, List.drop_append,
        List.drop_of_length_le (by omega), List.nil_append, hz]
      rw [show o - pos - (o' + y.length - pos) = o - (o' + y.length) by omega]
      exact hs

/-- Reading a field of a well placed table gives its bytes. -/
theorem slice_layout {n : Nat} {fs : List (Nat × Bytes)} {o k : Nat} {x : Bytes}
    (h : Placed n 0 fs) (hm : (o, x) ∈ fs) (hk : k = x.length) :
    slice (layout n 0 fs) o k = x := by
  subst hk
  simpa using (slice_layout_aux h hm).2

theorem slice_layout_gap_aux {n : Nat} : ∀ {fs : List (Nat × Bytes)} {pos o k : Nat},
    Placed n pos fs → pos ≤ o → o + k ≤ n →
    (∀ f ∈ fs, o + k ≤ f.1 ∨ f.1 + f.2.length ≤ o) →
      slice (layout n pos fs) (o - pos) k = zeros k
  | [], pos, o, k, _, h1, h2, _ => by
    simp only [slice, layout, zeros, List.drop_replicate, List.take_replicate]
    congr 1
    omega
  | (o', y) :: fs, pos, o, k, h, h1, h2, hd => by
    have hp := h.1
    have hz : (zeros (o' - pos) ++ y).length = o' + y.length - pos := by simp; omega
    rcases hd (o', y) (List.mem_cons_self ..) with hb | ha
    · simp only at hb
      simp only [slice, layout, zeros, List.drop_append, List.drop_replicate,
        List.length_replicate]
      rw [show o - pos - (o' - pos) = 0 by omega, List.drop_zero, List.take_append,
        List.take_replicate, List.length_replicate,
        show k - (o' - pos - (o - pos)) = 0 by omega, List.take_zero, List.append_nil]
      congr 1
      omega
    · simp only at ha
      rw [layout, ← List.append_assoc, slice, List.drop_append,
        List.drop_of_length_le (by omega), List.nil_append, hz,
        show o - pos - (o' + y.length - pos) = o - (o' + y.length) by omega]
      exact slice_layout_gap_aux h.2 ha h2 (fun f hf => hd f (List.mem_cons_of_mem _ hf))

/-- Reading between the fields of a well placed table gives zeros. -/
theorem slice_layout_gap {n : Nat} {fs : List (Nat × Bytes)} {o k : Nat}
    (h : Placed n 0 fs) (hk : o + k ≤ n)
    (hd : ∀ f ∈ fs, o + k ≤ f.1 ∨ f.1 + f.2.length ≤ o) :
    slice (layout n 0 fs) o k = zeros k := by
  simpa using slice_layout_gap_aux h (Nat.zero_le _) hk hd

theorem getElem?_slice {bs : Bytes} {off n i : Nat} (h : i < n) :
    (slice bs off n)[i]? = bs[off + i]? := by
  rw [slice, List.getElem?_take_of_lt h, List.getElem?_drop]

theorem slice_one_zero {bs : Bytes} {o k i : Nat} (h : slice bs o k = zeros k) (h1 : o ≤ i)
    (h2 : i < o + k) : slice bs i 1 = zeros 1 := by
  have hsub : slice (slice bs o k) (i - o) 1 = slice bs i 1 := by
    simp only [slice, List.drop_take, List.drop_drop, List.take_take]
    rw [show o + (i - o) = i by omega, show min 1 (k - (i - o)) = 1 by omega]
  rw [← hsub, h]
  simp only [slice, zeros, List.drop_replicate, List.take_replicate]
  congr 1
  omega

/-- A byte string that has every field of a table, and zeros between them, is the layout of the
table. -/
theorem layout_eq_of_slices {n : Nat} {fs : List (Nat × Bytes)} {bs : Bytes} (hp : Placed n 0 fs)
    (hl : bs.length = n) (hf : ∀ f ∈ fs, slice bs f.1 f.2.length = f.2)
    (hz : ∀ i < n, (∀ f ∈ fs, i + 1 ≤ f.1 ∨ f.1 + f.2.length ≤ i) → slice bs i 1 = zeros 1) :
    layout n 0 fs = bs := by
  refine List.ext_getElem? fun i => ?_
  by_cases hi : i < n
  · by_cases hgap : ∀ f ∈ fs, i + 1 ≤ f.1 ∨ f.1 + f.2.length ≤ i
    · have h1 := congrArg (fun x => x[0]?) (slice_layout_gap hp (by omega) hgap)
      have h2 := congrArg (fun x => x[0]?) (hz i hi hgap)
      simp only [getElem?_slice (Nat.zero_lt_one), Nat.add_zero] at h1 h2
      rw [h1, h2]
    · push Not at hgap
      obtain ⟨⟨o, x⟩, hm, h1, h2⟩ := hgap
      simp only at h1 h2
      have e1 := congrArg (fun y => y[i - o]?) (slice_layout hp hm rfl)
      have e2 := congrArg (fun y => y[i - o]?) (hf _ hm)
      simp only at e1 e2
      rw [getElem?_slice (by omega), show o + (i - o) = i by omega] at e1 e2
      rw [e1, e2]
  · have hlen := layout_length hp
    rw [List.getElem?_eq_none (by omega), List.getElem?_eq_none (by omega)]

end ByteLib
