import Mathlib

/-!
# Chunks

A transport with a limit on the length of its messages cuts a string into chunks:
whole ones as long as they go, and the rest, if there is one.  `chunks n l` is that
cut.  `chunks_cons` and `chunks_last` are what an induction over the chunks needs.
-/

namespace Logic

variable {A : Type}

/-- The chunks of `l`: all of length `n`, except that the last one may be shorter. -/
def chunks (n : Nat) (l : List A) : List (List A) :=
  (List.range (l.length / n)).map (fun i => (l.drop (i * n)).take n) ++
    if 0 < l.length % n then [l.drop (l.length / n * n)] else []

@[simp] theorem chunks_nil (n : Nat) : chunks n ([] : List A) = [] := by simp [chunks]

/-- A string that is not too short starts with a whole chunk. -/
theorem chunks_cons {n : Nat} (hn : 0 < n) {l : List A} (h : n ≤ l.length) :
    chunks n l = l.take n :: chunks n (l.drop n) := by
  have hdiv : l.length / n = (l.length - n) / n + 1 := by
    rw [Nat.div_eq_sub_div hn h]
  have hmod : l.length % n = (l.length - n) % n := Nat.mod_eq_sub_mod h
  have hshift : ∀ i, l.drop ((i + 1) * n) = (l.drop n).drop (i * n) := by
    intro i
    rw [List.drop_drop, Nat.succ_mul, Nat.add_comm]
  simp only [chunks, List.length_drop, hmod, hdiv, List.range_succ_eq_map, List.map_cons,
    List.map_map, Nat.zero_mul, List.drop_zero, List.cons_append, Function.comp_def,
    Nat.succ_eq_add_one, hshift]

/-- A string that fits into one message is one chunk. -/
theorem chunks_last {n : Nat} {l : List A} (h0 : 0 < l.length) (h : l.length ≤ n) :
    chunks n l = [l] := by
  rcases Nat.lt_or_ge l.length n with hlt | hge
  · simp [chunks, Nat.div_eq_of_lt hlt, Nat.mod_eq_of_lt hlt, h0]
  · obtain rfl : n = l.length := by omega
    rw [chunks_cons h0 (Nat.le_refl _), List.drop_length, chunks_nil, List.take_length]

/-- The first chunk of a string, and the chunks of what is behind it. -/
theorem chunks_of_ne_nil {n : Nat} (hn : 0 < n) {l : List A} (h : l ≠ []) :
    chunks n l = l.take n :: chunks n (l.drop n) := by
  rcases Nat.lt_or_ge n l.length with hlt | hle
  · exact chunks_cons hn (Nat.le_of_lt hlt)
  · rw [chunks_last (List.length_pos_iff.mpr h) hle, List.take_of_length_le hle,
      List.drop_of_length_le hle, chunks_nil]

/-- The number of chunks, from above. -/
theorem length_chunks_le {n k : Nat} (hn : 0 < n) {l : List A} (h : l.length ≤ k * n) :
    (chunks n l).length ≤ k := by
  induction k generalizing l with
  | zero =>
      have : l = [] := List.eq_nil_of_length_eq_zero (by omega)
      simp [this]
  | succ k ih =>
      by_cases hl : l = []
      · simp [hl]
      · rw [chunks_of_ne_nil hn hl, List.length_cons]
        have := ih (l := l.drop n) (by rw [List.length_drop, Nat.succ_mul] at *; omega)
        omega

end Logic
