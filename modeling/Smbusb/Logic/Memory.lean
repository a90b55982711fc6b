import Mathlib

/-!
# Memories

A memory gives every address a cell.  An array of a program is the part of a
memory below its size; what lies past the array is there too, so an index that is
too large still finds a cell.

A block is read and written as a list.  Programs move blocks one cell at a time,
so the lemmas to look at are `Mem.read_succ` and `Mem.update_write`: reading one
more cell appends it, and storing one more cell behind a written block extends the
block.
-/

namespace Logic

/-- A memory with cells in `A`. -/
abbrev Mem (A : Type) := Nat → A

namespace Mem

variable {A : Type}

/-- The `n` cells from `off` on. -/
def read (m : Mem A) (off n : Nat) : List A := (List.range n).map fun i => m (off + i)

/-- The memory with the cells from `off` on replaced by `l`. -/
def write (m : Mem A) (off : Nat) (l : List A) : Mem A := fun i =>
  if off ≤ i then l[i - off]?.getD (m i) else m i

/-! ## Reading -/

@[simp] theorem length_read (m : Mem A) (off n : Nat) : (m.read off n).length = n := by
  simp [read]

@[simp] theorem read_zero (m : Mem A) (off : Nat) : m.read off 0 = [] := rfl

theorem read_succ (m : Mem A) (off n : Nat) :
    m.read off (n + 1) = m.read off n ++ [m (off + n)] := by
  simp [read, List.range_succ]

theorem read_add (m : Mem A) (off a b : Nat) :
    m.read off (a + b) = m.read off a ++ m.read (off + a) b := by
  simp [read, List.range_add, Nat.add_assoc]

theorem take_read (m : Mem A) (off n k : Nat) : (m.read off n).take k = m.read off (min k n) := by
  rcases Nat.le_total k n with h | h
  · obtain ⟨j, rfl⟩ := Nat.exists_eq_add_of_le h
    rw [read_add, List.take_left' (length_read ..), Nat.min_eq_left h]
  · rw [List.take_of_length_le (by simpa using h), Nat.min_eq_right h]

theorem drop_read (m : Mem A) (off n k : Nat) :
    (m.read off n).drop k = m.read (off + k) (n - k) := by
  rcases Nat.le_total k n with h | h
  · obtain ⟨j, rfl⟩ := Nat.exists_eq_add_of_le h
    rw [read_add, List.drop_left' (length_read ..), Nat.add_sub_cancel_left]
  · rw [List.drop_of_length_le (by simpa using h), Nat.sub_eq_zero_of_le h, read_zero]

theorem getElem?_read (m : Mem A) {off n i : Nat} (h : i < n) :
    (m.read off n)[i]? = some (m (off + i)) := by
  simp [read, h]

/-- Two memories that agree on a block read the same there. -/
theorem read_congr {m m' : Mem A} {off off' n : Nat}
    (h : ∀ i < n, m (off + i) = m' (off' + i)) : m.read off n = m'.read off' n := by
  refine List.ext_getElem? fun i => ?_
  by_cases hi : i < n
  · rw [getElem?_read m hi, getElem?_read m' hi, h i hi]
  · rw [List.getElem?_eq_none (by simpa using hi), List.getElem?_eq_none (by simpa using hi)]

theorem read_eq_iff {m m' : Mem A} {off off' n : Nat} :
    m.read off n = m'.read off' n ↔ ∀ i < n, m (off + i) = m' (off' + i) := by
  refine ⟨fun h i hi => ?_, read_congr⟩
  have hcell := congrArg (·[i]?) h
  simp only [getElem?_read m hi, getElem?_read m' hi] at hcell
  exact Option.some.inj hcell

/-! ## Writing -/

theorem write_of_lt (m : Mem A) {off i : Nat} (l : List A) (h : i < off) :
    m.write off l i = m i := by
  simp [write, Nat.not_le.mpr h]

theorem write_of_ge (m : Mem A) {off i : Nat} {l : List A} (h : off + l.length ≤ i) :
    m.write off l i = m i := by
  have h1 : off ≤ i := by omega
  have h2 : l[i - off]? = none := List.getElem?_eq_none (by omega)
  simp [write, h1, h2]

theorem write_of_mem (m : Mem A) {off i : Nat} {l : List A} {a : A} (h : l[i]? = some a) :
    m.write off l (off + i) = a := by
  simp [write, h]

@[simp] theorem write_nil (m : Mem A) (off : Nat) : m.write off [] = m := by
  funext i
  simp [write]

/-- Storing the cell behind a written block extends the block. -/
theorem update_write (m : Mem A) (off : Nat) (l : List A) (a : A) :
    Function.update (m.write off l) (off + l.length) a = m.write off (l ++ [a]) := by
  funext i
  by_cases hi : i = off + l.length
  · subst hi
    simp [write]
  · rw [Function.update_of_ne hi]
    by_cases hlt : i < off
    · rw [write_of_lt m l hlt, write_of_lt m _ hlt]
    · by_cases hge : off + l.length + 1 ≤ i
      · rw [write_of_ge m (by omega), write_of_ge m (by simp; omega)]
      · have hle : off ≤ i := by omega
        have hin : i - off < l.length := by omega
        simp [write, hle, List.getElem?_append_left hin]

/-- Two adjacent blocks are one block. -/
theorem write_append (m : Mem A) (off : Nat) (l l' : List A) :
    (m.write off l).write (off + l.length) l' = m.write off (l ++ l') := by
  induction l' using List.reverseRecOn with
  | nil => simp
  | append_singleton l' a ih =>
      rw [← update_write, ih, ← List.append_assoc, ← update_write, List.length_append,
        Nat.add_assoc]

/-- A block that is copied in two parts. -/
theorem write_read_add (m m' : Mem A) (off i n : Nat) :
    (m.write off (m'.read 0 i)).write (off + i) (m'.read i n) =
      m.write off (m'.read 0 (i + n)) := by
  have happend := write_append m off (m'.read 0 i) (m'.read (0 + i) n)
  rwa [← read_add, length_read, Nat.zero_add] at happend

/-- What was written is read back. -/
theorem read_write_take (m : Mem A) (off : Nat) {l : List A} {n : Nat} (h : n ≤ l.length) :
    (m.write off l).read off n = l.take n := by
  refine List.ext_getElem? fun i => ?_
  by_cases hi : i < n
  · have hl : i < l.length := by omega
    rw [getElem?_read _ hi, List.getElem?_take_of_lt hi, List.getElem?_eq_getElem hl,
      write_of_mem m (List.getElem?_eq_getElem hl)]
  · rw [List.getElem?_eq_none (by simpa using hi), List.getElem?_eq_none (by simp; omega)]

/-- A part of what was written is read back. -/
theorem read_write_part (m : Mem A) (off : Nat) {l : List A} {i n : Nat} (h : i + n ≤ l.length) :
    (m.write off l).read (off + i) n = (l.drop i).take n := by
  rw [← Nat.add_sub_cancel_left (n := i) (m := n), ← drop_read, read_write_take m off h,
    List.take_drop, Nat.add_sub_cancel_left]

theorem read_write (m : Mem A) (off : Nat) (l : List A) :
    (m.write off l).read off l.length = l := by
  rw [read_write_take m off (Nat.le_refl _), List.take_length]

/-- Behind the first cell of a written block the rest is read back. -/
theorem read_write_cons (m : Mem A) (off : Nat) (a : A) {l : List A} {n : Nat} (h : n ≤ l.length) :
    (m.write off (a :: l)).read (off + 1) n = l.take n := by
  have hsplit := write_append m off [a] l
  rw [List.singleton_append, List.length_singleton] at hsplit
  rw [← hsplit, read_write_take _ _ h]

@[simp] theorem write_cons_self (m : Mem A) (off : Nat) (a : A) (l : List A) :
    m.write off (a :: l) off = a := by
  simp [write]

/-- A block that the written one does not touch reads as before. -/
theorem read_write_of_disjoint (m : Mem A) {off off' n : Nat} {l : List A}
    (h : off' + n ≤ off ∨ off + l.length ≤ off') :
    (m.write off l).read off' n = m.read off' n := by
  refine read_congr fun i hi => ?_
  cases h with
  | inl h => exact write_of_lt m l (by omega)
  | inr h => exact write_of_ge m (by omega)

end Mem

end Logic
