import Mathlib.Data.BitVec
import Mathlib.Data.List.Basic

/-!
# Words of eight bytes

A word is read from its bytes with the least significant one first.  As long as
they fit into the word, the bytes can be read back from it.  A text whose length
is a multiple of eight is determined by the words it is cut into.
-/

namespace Pview.Foundation

abbrev Byte := BitVec 8

abbrev Word := BitVec 64

def leWord : List Byte → Word
  | [] => 0
  | b :: bytes => b.setWidth 64 ||| leWord bytes <<< 8

def leBytes : Nat → Word → List Byte
  | 0, _ => []
  | n + 1, w => w.setWidth 8 :: leBytes n (w >>> 8)

def leWords : Nat → List Byte → List Word
  | 0, _ => []
  | n + 1, bytes => leWord (bytes.take 8) :: leWords n (bytes.drop 8)

@[simp]
theorem length_leBytes (n : Nat) (w : Word) : (leBytes n w).length = n := by
  induction n generalizing w with
  | zero => rfl
  | succ n ih => simp [leBytes, ih]

theorem leWord_append (xs ys : List Byte) :
    leWord (xs ++ ys) = leWord xs ||| leWord ys <<< (8 * xs.length) := by
  induction xs with
  | nil => simp [leWord]
  | cons b xs ih =>
      rw [List.cons_append, leWord, ih, leWord, BitVec.shiftLeft_or_distrib,
        ← BitVec.shiftLeft_add, List.length_cons, ← BitVec.or_assoc]
      congr 2

@[simp]
theorem leWord_replicate_zero (n : Nat) :
    leWord (List.replicate n 0#8) = 0#64 := by
  induction n with
  | zero => rfl
  | succ n ih => simp [List.replicate_succ, leWord, ih]

theorem leWord_getLsbD {bytes : List Byte} {i : Nat}
    (h : 8 * bytes.length ≤ i) : (leWord bytes).getLsbD i = false := by
  induction bytes generalizing i with
  | nil => simp [leWord]
  | cons b bytes ih =>
      rw [List.length_cons] at h
      have hb : b.getLsbD i = false := b.getLsbD_of_ge i (by omega)
      have ht := ih (i := i - 8) (by omega)
      simp [leWord, hb, ht]

theorem leWord_setWidth (b : Byte) (bytes : List Byte) :
    (leWord (b :: bytes)).setWidth 8 = b := by
  ext i hi
  simp [leWord]

theorem leWord_ushiftRight (b : Byte) {bytes : List Byte}
    (h : bytes.length ≤ 7) : leWord (b :: bytes) >>> 8 = leWord bytes := by
  apply BitVec.eq_of_getLsbD_eq
  intro i hi
  have hb : b.getLsbD (8 + i) = false := b.getLsbD_of_ge _ (by omega)
  by_cases hs : 8 + i < 64
  · have hlow : ¬ 8 + i < 8 := by omega
    simp [leWord, hs, hlow, BitVec.getLsbD_eq_getElem hi]
  · have ht : (leWord bytes).getLsbD i = false := leWord_getLsbD (by omega)
    simp [leWord, hs, ht]

theorem leBytes_leWord {bytes : List Byte} (h : bytes.length ≤ 8) :
    leBytes bytes.length (leWord bytes) = bytes := by
  induction bytes with
  | nil => rfl
  | cons b bytes ih =>
      rw [List.length_cons] at h
      rw [List.length_cons, leBytes, leWord_setWidth,
        leWord_ushiftRight b (by omega), ih (by omega)]

private theorem leWord_leBytes_getLsbD (n : Nat) (w : Word) (i : Nat)
    (hi : i < 64) :
    (leWord (leBytes n w)).getLsbD i = (decide (i < 8 * n) && w.getLsbD i) := by
  induction n generalizing w i with
  | zero => simp [leBytes, leWord]
  | succ n ih =>
      by_cases hlow : i < 8
      · have h8 : i < 8 * (n + 1) := by omega
        simp [leBytes, leWord, hlow, h8, hi]
      · have hshift := ih (w >>> 8) (i - 8) (by omega)
        have hsub : 8 + (i - 8) = i := by omega
        have h8 : i - 8 < 8 * n ↔ i < 8 * (n + 1) := by omega
        rw [BitVec.getLsbD_ushiftRight, hsub] at hshift
        rw [leBytes, leWord, BitVec.getLsbD_or, BitVec.getLsbD_shiftLeft,
          hshift]
        simp [hlow, hi, h8]

theorem leWord_leBytes (w : Word) : leWord (leBytes 8 w) = w := by
  apply BitVec.eq_of_getLsbD_eq
  intro i hi
  rw [leWord_leBytes_getLsbD 8 w i hi]
  simp [hi]

theorem leWord_injective {xs ys : List Byte} (hl : xs.length = ys.length)
    (h8 : xs.length ≤ 8) (h : leWord xs = leWord ys) : xs = ys := by
  have hx := leBytes_leWord h8
  have hy : leBytes ys.length (leWord ys) = ys := leBytes_leWord (by omega)
  rw [← hx, ← hy, hl, h]

theorem length_leWords (n : Nat) (bytes : List Byte) :
    (leWords n bytes).length = n := by
  induction n generalizing bytes with
  | zero => rfl
  | succ n ih => simp [leWords, ih]

theorem leWords_take {n m : Nat} (bytes : List Byte) (h : 8 * n ≤ m) :
    leWords n (bytes.take m) = leWords n bytes := by
  induction n generalizing m bytes with
  | zero => rfl
  | succ n ih =>
      rw [leWords, leWords, List.take_take, Nat.min_eq_left (by omega),
        List.drop_take, ih _ (by omega)]

theorem leWords_append (n : Nat) {xs : List Byte} (ys : List Byte)
    (hx : xs.length = 8 * n) (m : Nat) :
    leWords (n + m) (xs ++ ys) = leWords n xs ++ leWords m ys := by
  induction n generalizing xs with
  | zero =>
      rw [List.eq_nil_of_length_eq_zero hx, Nat.zero_add, List.nil_append]
      rfl
  | succ n ih =>
      have hdrop : (xs.drop 8).length = 8 * n := by simp; omega
      rw [Nat.add_right_comm, leWords, leWords,
        List.take_append_of_le_length (by omega),
        List.drop_append_of_le_length (by omega), ih hdrop, List.cons_append]

theorem leWords_injective {n : Nat} {xs ys : List Byte}
    (hx : xs.length = 8 * n) (hy : ys.length = 8 * n)
    (h : leWords n xs = leWords n ys) : xs = ys := by
  induction n generalizing xs ys with
  | zero =>
      rw [List.eq_nil_of_length_eq_zero hx, List.eq_nil_of_length_eq_zero hy]
  | succ n ih =>
      obtain ⟨hw, hws⟩ := List.cons.inj h
      have ht : xs.take 8 = ys.take 8 :=
        leWord_injective (by simp; omega) (by simp) hw
      have hd : xs.drop 8 = ys.drop 8 :=
        ih (by simp; omega) (by simp; omega) hws
      rw [← List.take_append_drop 8 xs, ht, hd, List.take_append_drop]

end Pview.Foundation
