/-
  Byte arrays, read and written at an offset, and the little-endian value of
  bytes.

  * `getElem?_writeAt` says what a write changes, byte by byte;
  * `groups` cuts a stream of bytes into groups of one size;
  * `value` and `split` turn bytes into a number and back (`split_value`);
  * `toNat_foldr_shift` is the loop that shifts bytes into a 64-bit word.
-/
import Mathlib.Data.BitVec
import Mathlib.Data.Nat.Digits.Lemmas

namespace Bytes

variable {l bs : List (BitVec 8)} {off n : ℕ}

/-! ## Arrays -/

/-- The `n` bytes from `off` on. -/
def readAt (l : List (BitVec 8)) (off n : ℕ) : List (BitVec 8) := (l.drop off).take n

/-- The bytes from `off` on become `bs`. -/
def writeAt (l : List (BitVec 8)) (off : ℕ) (bs : List (BitVec 8)) : List (BitVec 8) :=
  l.take off ++ bs ++ l.drop (off + bs.length)

theorem length_readAt (h : off + n ≤ l.length) : (readAt l off n).length = n := by
  simp only [readAt, List.length_take, List.length_drop]
  omega

theorem getElem?_readAt (k : ℕ) : (readAt l off n)[k]? = if k < n then l[off + k]? else none := by
  unfold readAt
  rw [List.getElem?_take]
  split_ifs
  · rw [List.getElem?_drop]
  · rfl

/-- A write changes the bytes from `off` on, and no others. -/
theorem getElem?_writeAt (h : off + bs.length ≤ l.length) (i : ℕ) : (writeAt l off bs)[i]? =
    if off ≤ i ∧ i < off + bs.length then bs[i - off]? else l[i]? := by
  have htake : (l.take off).length = off := by
    rw [List.length_take]
    omega
  unfold writeAt
  by_cases h1 : i < off
  · rw [List.append_assoc, List.getElem?_append_left (by omega), if_neg (by omega),
      List.getElem?_take_of_lt h1]
  rw [List.append_assoc, List.getElem?_append_right (by omega), htake]
  by_cases h2 : i < off + bs.length
  · rw [List.getElem?_append_left (by omega), if_pos ⟨by omega, h2⟩]
  · rw [List.getElem?_append_right (by omega), if_neg (by omega), List.getElem?_drop]
    congr 1
    omega

theorem length_writeAt (h : off + bs.length ≤ l.length) : (writeAt l off bs).length = l.length := by
  simp only [writeAt, List.length_append, List.length_take, List.length_drop]
  omega

/-- What was written stands behind what stood in front of it. -/
theorem take_writeAt (h : off ≤ l.length) :
    (writeAt l off bs).take (off + bs.length) = l.take off ++ bs := by
  have hlen : (l.take off ++ bs).length = off + bs.length := by
    rw [List.length_append, List.length_take, Nat.min_eq_left h]
  unfold writeAt
  rw [← hlen, List.take_left]

/-! ## Groups -/

/-- The complete groups of `n` bytes, one after the other. -/
def groups (n : ℕ) (l : List (BitVec 8)) : List (List (BitVec 8)) :=
  (List.range (l.length / n)).map fun k => readAt l (n * k) n

theorem groups_of_lt (h : l.length < n) : groups n l = [] := by
  unfold groups
  rw [Nat.div_eq_of_lt h]
  rfl

/-- The first group, and those of the rest. -/
theorem groups_append (hn : 0 < n) (h : bs.length = n) : groups n (bs ++ l) = bs :: groups n l := by
  have hdiv : (bs ++ l).length / n = l.length / n + 1 := by
    rw [List.length_append, h, Nat.add_div_left _ hn]
  have hhead : readAt (bs ++ l) (n * 0) n = bs := by
    unfold readAt
    rw [Nat.mul_zero, List.drop_zero, ← h, List.take_left]
  have htail : ∀ k, readAt (bs ++ l) (n * (k + 1)) n = readAt l (n * k) n := by
    intro k
    unfold readAt
    rw [Nat.mul_succ, Nat.add_comm, ← h, List.drop_length_add_append]
  unfold groups
  rw [hdiv, List.range_succ_eq_map, List.map_cons, List.map_map, hhead]
  refine congrArg (bs :: ·) (List.map_congr_left fun k _ => ?_)
  exact htail k

/-! ## Little-endian values -/

/-- The first byte is the lowest. -/
def value (l : List (BitVec 8)) : ℕ := Nat.ofDigits 256 (l.map BitVec.toNat)

/-- The low `n` bytes of a number, the lowest first. -/
def split : ℕ → ℕ → List (BitVec 8)
  | 0, _ => []
  | n + 1, v => BitVec.ofNat 8 v :: split n (v / 256)

@[simp] theorem value_nil : value [] = 0 := rfl

@[simp] theorem value_cons (b : BitVec 8) (l : List (BitVec 8)) :
    value (b :: l) = b.toNat + 256 * value l := Nat.ofDigits_cons

theorem value_lt (l : List (BitVec 8)) : value l < 256 ^ l.length := by
  induction l with
  | nil => exact Nat.zero_lt_one
  | cons b l ih =>
    have hb := b.isLt
    rw [value_cons, List.length_cons, Nat.pow_succ]
    omega

@[simp] theorem length_split (n v : ℕ) : (split n v).length = n := by
  induction n generalizing v with
  | zero => rfl
  | succ n ih => rw [split, List.length_cons, ih]

/-- The bytes of a value are the bytes it was made of. -/
theorem split_value (l : List (BitVec 8)) : split l.length (value l) = l := by
  induction l with
  | nil => rfl
  | cons b l ih =>
    have hb := b.isLt
    have hlow : BitVec.ofNat 8 (b.toNat + 256 * value l) = b := by
      apply BitVec.eq_of_toNat_eq
      rw [BitVec.toNat_ofNat]
      omega
    have hhigh : (b.toNat + 256 * value l) / 256 = value l := by omega
    rw [List.length_cons, split, value_cons, hlow, hhigh, ih]

theorem split_value_readAt (h : off + n ≤ l.length) :
    split n (value (readAt l off n)) = readAt l off n := by
  have hsplit := split_value (readAt l off n)
  rw [length_readAt h] at hsplit
  exact hsplit

theorem getElem?_split (n v k : ℕ) :
    (split n v)[k]? = if k < n then some (BitVec.ofNat 8 (v / 256 ^ k)) else none := by
  induction n generalizing v k with
  | zero => rfl
  | succ n ih =>
    cases k with
    | zero => simp [split]
    | succ k =>
      have hpow : v / 256 / 256 ^ k = v / 256 ^ (k + 1) := by
        rw [Nat.div_div_eq_div_mul, Nat.pow_succ, Nat.mul_comm 256]
      rw [split, List.getElem?_cons_succ, ih, hpow]
      simp only [Nat.succ_lt_succ_iff]

/-- A byte of a word. -/
theorem ofNat_div_pow {w : ℕ} (v : BitVec w) (k : ℕ) :
    BitVec.ofNat 8 (v.toNat / 256 ^ k) = (v >>> (8 * k)).setWidth 8 := by
  have hpow : 2 ^ (8 * k) = 256 ^ k := by rw [Nat.pow_mul]
  apply BitVec.eq_of_toNat_eq
  rw [BitVec.toNat_ofNat, BitVec.toNat_setWidth, BitVec.toNat_ushiftRight,
    Nat.shiftRight_eq_div_pow, hpow]

/-- Shifting up to eight bytes into a word, the last one first, gives their value. -/
theorem toNat_foldr_shift (l : List (BitVec 8)) (h : l.length ≤ 8) :
    (l.foldr (fun b (v : BitVec 64) => v <<< 8 ||| b.setWidth 64) 0).toNat = value l := by
  induction l with
  | nil => rfl
  | cons b l ih =>
    have hlen : l.length ≤ 7 := Nat.le_of_succ_le_succ h
    have hb := b.isLt
    have hl : value l < 256 ^ 7 := lt_of_lt_of_le (value_lt l) (Nat.pow_le_pow_right (by omega) hlen)
    have hmod : value l <<< 8 % 2 ^ 64 = value l <<< 8 := by
      rw [Nat.shiftLeft_eq]
      omega
    have hlow : b.toNat % 2 ^ 64 = b.toNat := by omega
    rw [List.foldr_cons, BitVec.toNat_or, BitVec.toNat_shiftLeft, BitVec.toNat_setWidth,
      ih (by omega), hmod, hlow, ← Nat.shiftLeft_add_eq_or_of_lt hb, value_cons, Nat.shiftLeft_eq]
    omega

end Bytes
