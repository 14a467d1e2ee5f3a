import TFDB.Lib.Bytes

/-!
# Checked access

Programs that read byte strings by position and count in machine words, with every access and
every sum checked: the result is nothing as soon as a read leaves its string or a number leaves
the word.  A program that never ends in nothing does neither.

* `addWord`, `subWord` — sums and differences of 64-bit words;
* `byteAt`, `bytesAt`, `extend` — reads, and output with a bound;
* `At` — a cursor: what is left of a string at a position.
-/

set_option autoImplicit false

namespace ByteLib

/-- A sum that fits a word. -/
def addWord (a b : Nat) : Option Nat := if a + b < 2 ^ 64 then some (a + b) else none

/-- A difference that does not wrap. -/
def subWord (a b : Nat) : Option Nat := if b ≤ a then some (a - b) else none

/-- A byte inside the string. -/
def byteAt (bs : Bytes) (i : Nat) : Option UInt8 := bs[i]?

/-- `n` bytes inside the string. -/
def bytesAt (bs : Bytes) (i n : Nat) : Option Bytes :=
  if i + n ≤ bs.length then some (slice bs i n) else none

/-- Output that stays within its bound. -/
def extend (limit : Nat) (out more : Bytes) : Option Bytes :=
  if out.length + more.length ≤ limit then some (out ++ more) else none

/-- A check that succeeded. -/
theorem checked_bind {α β : Type} (a : α) (f : α → Option β) : (some a >>= f) = f a := rfl

theorem addWord_eq {a b : Nat} (h : a + b < 2 ^ 64) : addWord a b = some (a + b) := if_pos h

theorem subWord_eq {a b : Nat} (h : b ≤ a) : subWord a b = some (a - b) := if_pos h

theorem extend_eq {limit : Nat} {out more : Bytes} (h : out.length + more.length ≤ limit) :
    extend limit out more = some (out ++ more) := if_pos h

/-- What is left of a string at a position. -/
structure At (bs : Bytes) (position : Nat) (rest : Bytes) : Prop where
  bound : position ≤ bs.length
  drop : bs.drop position = rest

namespace At

theorem start (bs : Bytes) : At bs 0 bs := ⟨Nat.zero_le _, rfl⟩

variable {bs rest : Bytes} {position : Nat}

theorem length (h : At bs position rest) : position + rest.length = bs.length := by
  have h1 := h.bound
  rw [← h.drop, List.length_drop]
  omega

theorem done_iff (h : At bs position rest) : position = bs.length ↔ rest = [] := by
  have h1 := h.length
  constructor
  · intro he
    exact List.length_eq_zero_iff.mp (by omega)
  · intro he
    rw [he, List.length_nil] at h1
    omega

theorem lt_iff (h : At bs position rest) : position < bs.length ↔ rest ≠ [] := by
  have h1 := h.length
  have h2 := h.done_iff
  rw [ne_eq, ← h2]
  have h3 := h.bound
  omega

/-- The next byte, and the cursor behind it. -/
theorem next {b : UInt8} (h : At bs position (b :: rest)) :
    byteAt bs position = some b ∧ At bs (position + 1) rest := by
  have h1 := h.length
  rw [List.length_cons] at h1
  refine ⟨?_, by omega, ?_⟩
  · have h2 := congrArg (·[0]?) h.drop
    simpa [byteAt] using h2
  · have h2 := congrArg (List.drop 1) h.drop
    rwa [List.drop_drop, List.drop_one, List.tail_cons] at h2

/-- The next `n` bytes, and the cursor behind them. -/
theorem skip (h : At bs position rest) {n : Nat} (hn : n ≤ rest.length) :
    bytesAt bs position n = some (rest.take n) ∧ At bs (position + n) (rest.drop n) := by
  have h1 := h.length
  refine ⟨?_, by omega, ?_⟩
  · rw [bytesAt, if_pos (by omega), slice, h.drop]
  · rw [← List.drop_drop, h.drop]

end At

end ByteLib
