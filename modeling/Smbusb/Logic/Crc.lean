import Mathlib

/-!
# Cyclic redundancy codes

The remainder of a bit string modulo a polynomial over two elements, `w` bits wide and without
its leading bit (`g`), as a shift register computes it.  The first bit of a string is its
highest one.

*The register.*  `shift` multiplies by the indeterminate, `feed` takes in one more bit.  Both are
additive, so the remainder of a string with errors is that of the string and that of the errors,
added (`remainder_add`).

*Errors.*  An error pattern is noticed when its remainder is not zero.  What a code notices is
decided by its polynomial: everything within `w` consecutive bits when the polynomial is odd
(`remainder_burst`), every odd number of bits when it has an even number of terms
(`remainder_odd`), and two bits unless their distance is a multiple of the period of `g`
(`remainder_pair`).
-/

namespace Logic

namespace Crc

variable {w : Nat}

/-! ## The register -/

/-- Multiply by the indeterminate. -/
def shift (g r : BitVec w) : BitVec w := if r.msb then r <<< 1 ^^^ g else r <<< 1

/-- A bit in the highest place. -/
def top (b : Bool) : BitVec w := if b then BitVec.intMin w else 0

/-- Take in one more bit. -/
def feed (g r : BitVec w) (b : Bool) : BitVec w := shift g (r ^^^ top b)

/-- The remainder of a bit string, highest bit first. -/
def remainder (g : BitVec w) (bs : List Bool) : BitVec w := bs.foldl (feed g) 0

section

variable {g : BitVec w}

@[simp] theorem shift_zero : shift g 0 = 0 := by
  simp [shift]

@[simp] theorem top_false : (top false : BitVec w) = 0 := rfl

theorem top_xor (a b : Bool) : (top (a ^^ b) : BitVec w) = top a ^^^ top b := by
  cases a <;> cases b <;> simp [top]

theorem shift_xor (x y : BitVec w) : shift g (x ^^^ y) = shift g x ^^^ shift g y := by
  simp only [shift, BitVec.msb_xor, BitVec.shiftLeft_xor_distrib]
  cases x.msb with
  | false =>
      cases y.msb with
      | false => rfl
      | true => exact BitVec.xor_assoc _ _ _
  | true =>
      cases y.msb with
      | false =>
          calc x <<< 1 ^^^ y <<< 1 ^^^ g
            _ = x <<< 1 ^^^ (g ^^^ y <<< 1) := by rw [BitVec.xor_assoc, BitVec.xor_comm g]
            _ = x <<< 1 ^^^ g ^^^ y <<< 1 := (BitVec.xor_assoc _ _ _).symm
      | true =>
          calc x <<< 1 ^^^ y <<< 1
            _ = x <<< 1 ^^^ (g ^^^ (g ^^^ y <<< 1)) := by
              rw [← BitVec.xor_assoc g, BitVec.xor_self, BitVec.zero_xor]
            _ = x <<< 1 ^^^ g ^^^ (y <<< 1 ^^^ g) := by
              rw [BitVec.xor_comm (y <<< 1), BitVec.xor_assoc]

theorem feed_xor (x y : BitVec w) (a b : Bool) :
    feed g (x ^^^ y) (a ^^ b) = feed g x a ^^^ feed g y b := by
  have hswap : x ^^^ y ^^^ (top a ^^^ top b) = (x ^^^ top a) ^^^ (y ^^^ top b) := by ac_rfl
  rw [feed, feed, feed, top_xor, hswap, shift_xor]

/-- Adding two strings adds the registers. -/
theorem foldl_feed_xor {as bs : List Bool} (hlen : as.length = bs.length) (x y : BitVec w) :
    (List.zipWith xor as bs).foldl (feed g) (x ^^^ y) =
      as.foldl (feed g) x ^^^ bs.foldl (feed g) y := by
  induction as generalizing bs x y with
  | nil =>
      obtain rfl : bs = [] := List.length_eq_zero_iff.mp hlen.symm
      rfl
  | cons a as ih =>
      cases bs with
      | nil => exact absurd hlen (Nat.succ_ne_zero _)
      | cons b bs =>
          rw [List.zipWith_cons_cons, List.foldl_cons, feed_xor, ih (Nat.succ.inj hlen)]
          rfl

/-- The errors are added to what is behind them. -/
theorem remainder_add {as bs : List Bool} (hlen : as.length = bs.length) (x : BitVec w) :
    (List.zipWith xor as bs).foldl (feed g) x = as.foldl (feed g) x ^^^ remainder g bs := by
  have h := foldl_feed_xor (g := g) hlen x 0
  rwa [show x ^^^ 0 = x from BitVec.xor_zero] at h

theorem foldl_feed_false (n : Nat) (x : BitVec w) :
    (List.replicate n false).foldl (feed g) x = (shift g)^[n] x := by
  induction n generalizing x with
  | zero => rfl
  | succ n ih =>
      have hstep : feed g x false = shift g x := by
        rw [feed, top_false, show x ^^^ 0 = x from BitVec.xor_zero]
      rw [List.replicate_succ, List.foldl_cons, hstep, ih, Function.iterate_succ_apply]

theorem shift_iterate_zero (n : Nat) : (shift g)^[n] 0 = 0 :=
  Function.iterate_fixed shift_zero n

/-! ## Words -/

/-- The bits of a word, highest first. -/
def bits (d : BitVec w) : List Bool := (List.range w).map d.getMsbD

/-- The word with these highest bits. -/
def word : List Bool → BitVec w
  | [] => 0
  | b :: bs => top b ^^^ word bs >>> 1

/-- The bits of a row of words. -/
def stream (ds : List (BitVec w)) : List Bool := ds.flatMap bits

theorem getMsbD_top (b : Bool) (i : Nat) :
    (top b : BitVec w).getMsbD i = (decide (i < w) && (b && decide (i = 0))) := by
  cases b with
  | false => simp [top]
  | true =>
      rw [top, if_pos rfl, BitVec.getMsbD_eq_getLsbD, BitVec.getLsbD_intMin]
      rcases Nat.lt_or_ge i w with h | h
      · simp only [h, decide_true, Bool.true_and, decide_eq_decide]
        omega
      · simp [Nat.not_lt.mpr h]

theorem getMsbD_word (bs : List Bool) (i : Nat) :
    (word bs : BitVec w).getMsbD i = (decide (i < w) && bs.getD i false) := by
  induction bs generalizing i with
  | nil => simp [word]
  | cons b bs ih =>
      rw [word, BitVec.getMsbD_xor, BitVec.getMsbD_ushiftRight, getMsbD_top, ih]
      cases i with
      | zero => simp
      | succ i =>
          have hlow : i + 1 < w → i < w := Nat.lt_of_succ_lt
          by_cases h : i + 1 < w
          · simp [h, hlow h]
          · simp [h]

theorem word_bits (d : BitVec w) : word (bits d) = d := by
  refine BitVec.eq_of_getMsbD_eq fun i hi => ?_
  rw [getMsbD_word]
  simp [bits, hi]

/-- A word with room below moves down and up again. -/
theorem shift_word {bs : List Bool} (hlen : bs.length < w) :
    shift g ((word bs : BitVec w) >>> 1) = word bs := by
  have hmsb : ((word bs : BitVec w) >>> 1).msb = false := by
    simp [BitVec.msb_eq_getMsbD_zero]
  rw [shift, hmsb, if_neg Bool.false_ne_true]
  refine BitVec.eq_of_getMsbD_eq fun i hi => ?_
  rw [BitVec.getMsbD_shiftLeft, BitVec.getMsbD_ushiftRight, getMsbD_word, getMsbD_word]
  rcases Nat.lt_or_ge i bs.length with hin | hout
  · have hroom : i + 1 < w := Nat.lt_of_le_of_lt hin hlen
    simp [hi, hroom]
  · simp [List.getElem?_eq_none hout]

/-- So many bits at once. -/
theorem foldl_feed {bs : List Bool} (hlen : bs.length ≤ w) (x : BitVec w) :
    bs.foldl (feed g) x = (shift g)^[bs.length] (x ^^^ word bs) := by
  induction bs generalizing x with
  | nil => exact BitVec.xor_zero.symm
  | cons b bs ih =>
      rw [List.foldl_cons, ih (Nat.le_of_succ_le hlen), List.length_cons,
        Function.iterate_succ_apply, word, ← BitVec.xor_assoc, shift_xor (x ^^^ top b),
        shift_word hlen]
      rfl

/-- A word at once. -/
theorem foldl_feed_bits (d x : BitVec w) :
    (bits d).foldl (feed g) x = (shift g)^[w] (x ^^^ d) := by
  have hlen : (bits d).length = w := by simp [bits]
  rw [foldl_feed (Nat.le_of_eq hlen), hlen, word_bits]

theorem foldl_feed_stream (ds : List (BitVec w)) (x : BitVec w) :
    (stream ds).foldl (feed g) x = ds.foldl (fun x d => (shift g)^[w] (x ^^^ d)) x := by
  induction ds generalizing x with
  | nil => rfl
  | cons d ds ih => rw [stream, List.flatMap_cons, List.foldl_append, foldl_feed_bits, ← stream, ih,
      List.foldl_cons]

theorem bits_xor (d e : BitVec w) : bits (d ^^^ e) = List.zipWith xor (bits d) (bits e) := by
  simp only [bits, List.zipWith_map, List.zipWith_self]
  exact List.map_congr_left fun i _ => BitVec.getMsbD_xor

theorem stream_xor {ds es : List (BitVec w)} (hlen : ds.length = es.length) :
    stream (List.zipWith (· ^^^ ·) ds es) = List.zipWith xor (stream ds) (stream es) := by
  induction ds generalizing es with
  | nil => rfl
  | cons d ds ih =>
      cases es with
      | nil => exact absurd hlen (Nat.succ_ne_zero _)
      | cons e es =>
          have hbits : (bits d).length = (bits e).length := by simp [bits]
          simp only [stream, List.zipWith_cons_cons, List.flatMap_cons]
          rw [List.zipWith_append hbits, bits_xor]
          exact congrArg _ (ih (Nat.succ.inj hlen))

theorem length_stream (ds : List (BitVec w)) : (stream ds).length = ds.length * w := by
  simp [stream, bits]

/-! ## Odd polynomials -/

/-- The lowest bit of the product says whether the polynomial was subtracted. -/
theorem shift_eq_zero (hg : g.getLsbD 0 = true) {r : BitVec w} : shift g r = 0 ↔ r = 0 := by
  refine ⟨fun h => ?_, fun h => by rw [h, shift_zero]⟩
  rw [shift] at h
  split at h
  · have hlow := congrArg (fun x => x.getLsbD 0) h
    simp [hg] at hlow
  · next hmsb =>
    refine BitVec.eq_of_getMsbD_eq fun i hi => ?_
    cases i with
    | zero =>
        rw [← BitVec.msb_eq_getMsbD_zero]
        simpa using hmsb
    | succ i =>
        have hbit := congrArg (fun x => x.getMsbD i) h
        simpa [BitVec.getMsbD_shiftLeft, Nat.lt_of_succ_lt hi] using hbit

theorem shift_iterate_eq_zero (hg : g.getLsbD 0 = true) (n : Nat) {r : BitVec w} :
    (shift g)^[n] r = 0 ↔ r = 0 := by
  induction n generalizing r with
  | zero => exact Iff.rfl
  | succ n ih => rw [Function.iterate_succ_apply, ih, shift_eq_zero hg]

/-! ## Errors -/

/-- All errors are within `n` consecutive bits, and there are some. -/
def Burst (n : Nat) (bs : List Bool) : Prop :=
  true ∈ bs ∧ ∃ k, ∀ i, bs.getD i false = true → k ≤ i ∧ i < k + n

/-- The errors are these two bits. -/
def Pair (i j : Nat) (bs : List Bool) : Prop :=
  i < j ∧ ∀ n, bs.getD n false = true ↔ n = i ∨ n = j

/-- The errors of a pair, in a row of other bits. -/
theorem Pair.shape {i j : Nat} {bs : List Bool} (h : Pair i j bs) :
    ∃ m, bs = List.replicate i false ++ ((true :: List.replicate (j - i - 1) false) ++ [true] ++
      List.replicate m false) := by
  obtain ⟨hlt, hbits⟩ := h
  have hin : j < bs.length := by
    refine Nat.lt_of_not_le fun hout => ?_
    have hj := (hbits j).mpr (.inr rfl)
    rw [List.getD_eq_default _ _ hout] at hj
    exact Bool.false_ne_true hj
  refine ⟨bs.length - j - 1, List.ext_getElem ?_ fun n hn hn' => ?_⟩
  · simp
    omega
  · have hbit : bs[n] = decide (n = i ∨ n = j) := by
      rw [← List.getD_eq_getElem _ false hn, Bool.eq_iff_iff, hbits n, decide_eq_true_eq]
    rw [hbit, Bool.eq_iff_iff]
    simp [List.getElem_append, List.getElem_cons]
    omega

theorem eq_replicate_of_getD {bs : List Bool} (h : ∀ i, bs.getD i false ≠ true) :
    bs = List.replicate bs.length false := by
  refine List.eq_replicate_iff.mpr ⟨rfl, fun b hb => ?_⟩
  obtain ⟨i, hi, rfl⟩ := List.getElem_of_mem hb
  have hget := h i
  rw [List.getD_eq_getElem _ _ hi] at hget
  exact Bool.eq_false_iff.mpr hget

/-- Bits without an error in front of the others do not count. -/
theorem remainder_replicate_append (n : Nat) (bs : List Bool) :
    remainder g (List.replicate n false ++ bs) = remainder g bs := by
  rw [remainder, List.foldl_append, foldl_feed_false, shift_iterate_zero]
  rfl

/-- Behind the others they multiply. -/
theorem remainder_append_replicate (hg : g.getLsbD 0 = true) (bs : List Bool) (n : Nat) :
    remainder g (bs ++ List.replicate n false) = 0 ↔ remainder g bs = 0 := by
  rw [remainder, List.foldl_append, foldl_feed_false, shift_iterate_eq_zero hg]
  exact Iff.rfl

/-- A code with an odd polynomial notices what is within its width. -/
theorem remainder_burst (hg : g.getLsbD 0 = true) {bs : List Bool} (h : Burst w bs) :
    remainder g bs ≠ 0 := by
  obtain ⟨hmem, k, hin⟩ := h
  have hfront : bs.take k = List.replicate (bs.take k).length false := by
    refine eq_replicate_of_getD fun i hi => ?_
    rcases Nat.lt_or_ge i k with hlt | hge
    · have hbit : bs.getD i false = true := by
        simpa [List.getElem?_take, hlt] using hi
      exact Nat.not_le_of_lt hlt (hin i hbit).1
    · simp [Nat.not_lt.mpr hge] at hi
  have hback : (bs.drop k).drop w = List.replicate ((bs.drop k).drop w).length false := by
    refine eq_replicate_of_getD fun i hi => ?_
    have hbit : bs.getD (k + w + i) false = true := by
      simpa [List.getElem?_drop, Nat.add_assoc] using hi
    have := (hin _ hbit).2
    omega
  intro hzero
  rw [← List.take_append_drop k bs, hfront, remainder_replicate_append,
    ← List.take_append_drop w (bs.drop k), hback, remainder_append_replicate hg, remainder,
    foldl_feed (List.length_take_le _ _), shift_iterate_eq_zero hg,
    show 0 ^^^ word _ = (word _ : BitVec w) from BitVec.zero_xor] at hzero
  obtain ⟨i, hi, hbit⟩ := List.getElem_of_mem hmem
  rw [← List.getD_eq_getElem _ false hi] at hbit
  obtain ⟨hfrom, hto⟩ := hin i hbit
  have hplace := getMsbD_word (w := w) ((bs.drop k).take w) (i - k)
  have hlow : i - k < w := by omega
  have hsame : k + (i - k) = i := by omega
  rw [hzero] at hplace
  simp [List.getElem?_drop, hlow, hsame] at hplace
  simp [hplace] at hbit

/-- The parity of a bit string. -/
def parity (bs : List Bool) : Bool := bs.foldr xor false

theorem parity_cons (b : Bool) (bs : List Bool) : parity (b :: bs) = (b ^^ parity bs) := rfl

theorem parity_iff {bs : List Bool} : parity bs = true ↔ Odd (bs.count true) := by
  induction bs with
  | nil => simp [parity]
  | cons b bs ih =>
      cases b with
      | false => simp [parity_cons, ih]
      | true => simp [parity_cons, Nat.odd_add_one, ← ih]

theorem parity_zipWith {as bs : List Bool} (hlen : as.length = bs.length) :
    parity (List.zipWith xor as bs) = (parity as ^^ parity bs) := by
  induction as generalizing bs with
  | nil =>
      obtain rfl : bs = [] := List.length_eq_zero_iff.mp hlen.symm
      rfl
  | cons a as ih =>
      cases bs with
      | nil => exact absurd hlen (Nat.succ_ne_zero _)
      | cons b bs =>
          rw [List.zipWith_cons_cons, parity_cons, parity_cons, parity_cons, ih (Nat.succ.inj hlen)]
          rw [Bool.xor_assoc, Bool.xor_assoc, Bool.xor_left_comm b]

theorem parity_xor (x y : BitVec w) :
    parity (bits (x ^^^ y)) = (parity (bits x) ^^ parity (bits y)) := by
  rw [bits_xor, parity_zipWith]
  simp [bits]

theorem parity_append (as bs : List Bool) : parity (as ++ bs) = (parity as ^^ parity bs) := by
  induction as with
  | nil => exact (Bool.false_xor _).symm
  | cons a as ih => rw [List.cons_append, parity_cons, parity_cons, ih, Bool.xor_assoc]

theorem parity_replicate (n : Nat) : parity (List.replicate n false) = false := by
  rw [Bool.eq_false_iff, ne_eq, parity_iff]
  simp [List.count_replicate]

theorem bits_succ {n : Nat} (x : BitVec (n + 1)) :
    bits x = x.msb :: (List.range n).map fun i => x.getMsbD (i + 1) := by
  rw [bits, List.range_succ_eq_map, List.map_cons, List.map_map, ← BitVec.msb_eq_getMsbD_zero]
  rfl

theorem bits_shiftLeft {n : Nat} (x : BitVec (n + 1)) :
    bits (x <<< 1) = (List.range n).map (fun i => x.getMsbD (i + 1)) ++ [false] := by
  rw [bits, List.range_succ, List.map_append]
  refine congrArg₂ _ (List.map_congr_left fun i hi => ?_) ?_
  · rw [BitVec.getMsbD_shiftLeft]
  · simp [BitVec.getMsbD_shiftLeft]

/-- Multiplying keeps the parity. -/
theorem parity_shift (hg : parity (bits g) = true) (x : BitVec w) :
    parity (bits (shift g x)) = parity (bits x) := by
  cases w with
  | zero => exact absurd hg Bool.false_ne_true
  | succ n =>
      have hmove : parity (bits (x <<< 1)) = (x.msb ^^ parity (bits x)) := by
        rw [bits_shiftLeft, bits_succ, parity_append, parity_cons x.msb, ← Bool.xor_assoc,
          Bool.xor_self, Bool.false_xor]
        exact Bool.xor_false _
      rw [shift]
      cases hmsb : x.msb with
      | false => rw [if_neg Bool.false_ne_true, hmove, hmsb, Bool.false_xor]
      | true =>
          rw [if_pos rfl, parity_xor, hmove, hmsb, hg, Bool.true_xor, Bool.xor_true, Bool.not_not]

theorem parity_top (hw : 0 < w) (b : Bool) : parity (bits (top b : BitVec w)) = b := by
  obtain ⟨n, rfl⟩ : ∃ n, w = n + 1 := ⟨w - 1, by omega⟩
  have hrest : (List.range n).map (fun i => (top b : BitVec (n + 1)).getMsbD (i + 1)) =
      List.replicate n false := by
    refine List.eq_replicate_iff.mpr ⟨by simp, fun c hc => ?_⟩
    obtain ⟨i, -, rfl⟩ := List.mem_map.mp hc
    simp [getMsbD_top]
  have hfirst : (top b : BitVec (n + 1)).msb = b := by
    simp [BitVec.msb_eq_getMsbD_zero, getMsbD_top]
  rw [bits_succ, hrest, hfirst, parity_cons, parity_replicate, Bool.xor_false]

theorem parity_foldl (hw : 0 < w) (hg : parity (bits g) = true) (bs : List Bool) (x : BitVec w) :
    parity (bits (bs.foldl (feed g) x)) = (parity (bits x) ^^ parity bs) := by
  induction bs generalizing x with
  | nil => exact (Bool.xor_false _).symm
  | cons b bs ih =>
      rw [List.foldl_cons, ih, feed, parity_shift hg, parity_xor, parity_top hw, parity_cons,
        Bool.xor_assoc]

/-- A code whose polynomial has an even number of terms notices every odd number of errors. -/
theorem remainder_odd (hg : parity (bits g) = true) {bs : List Bool} (h : Odd (bs.count true)) :
    remainder g bs ≠ 0 := by
  intro hzero
  have hw : 0 < w := by
    rcases Nat.eq_zero_or_pos w with rfl | hw
    · exact absurd hg Bool.false_ne_true
    · exact hw
  have hodd := parity_foldl hw hg bs 0
  rw [← remainder, hzero, parity_iff.mpr h] at hodd
  cases parity (bits (0 : BitVec w)) <;> simp at hodd

/-- Two errors are noticed unless their distance is a multiple of the period. -/
theorem remainder_pair (hg : g.getLsbD 0 = true) {i j : Nat} {bs : List Bool} (h : Pair i j bs) :
    remainder g bs = 0 ↔ Function.minimalPeriod (shift g) g ∣ j - i := by
  obtain ⟨m, hbs⟩ := h.shape
  have hw : 0 < w := BitVec.lt_of_getLsbD hg
  have htop : shift g (top true) = g := by
    have hmsb : (top true : BitVec w).msb = true := by
      simp [BitVec.msb_eq_getMsbD_zero, getMsbD_top, hw]
    have hout : (top true : BitVec w) <<< 1 = 0 := by
      refine BitVec.eq_of_getMsbD_eq fun n _ => ?_
      simp [BitVec.getMsbD_shiftLeft, getMsbD_top]
    rw [shift, hmsb, if_pos rfl, hout]
    exact BitVec.zero_xor
  have hfirst : feed g 0 true = g := by
    rw [feed, show 0 ^^^ top true = (top true : BitVec w) from BitVec.zero_xor, htop]
  have hsecond : ∀ x, feed g x true = shift g x ^^^ g := by
    intro x
    rw [feed, shift_xor, htop]
  have hdist : j - i - 1 + 1 = j - i := Nat.sub_add_cancel (Nat.sub_pos_of_lt h.1)
  rw [hbs, remainder_replicate_append, remainder_append_replicate hg, remainder,
    List.foldl_append, List.foldl_cons (l := List.replicate _ _), hfirst, foldl_feed_false,
    List.foldl_cons, hsecond, ← Function.iterate_succ_apply' (shift g), Nat.succ_eq_add_one, hdist,
    List.foldl_nil]
  rw [← Function.isPeriodicPt_iff_minimalPeriod_dvd]
  exact BitVec.xor_eq_zero_iff

end

end Crc

end Logic
