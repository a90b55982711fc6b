import Smbusb.Logic.Crc

/-!
# The register of a cyclic redundancy code, as polynomial division

The bits of a string are the coefficients of a polynomial over two elements, the first bit the
highest one (`ofBits`).  A register of width `w` stands for a polynomial below degree `w`
(`poly`), and its `g` for the polynomial with the leading bit put back (`generator`).

*Division.*  Modulo the generator, `shift` is the multiplication by the indeterminate
(`mk_poly_shift`), since the bit that is shifted out is `X ^ w`, for which the rest of the
generator is put in.  `feed` adds its bit in the highest place first, so it adds `X ^ w`.
So the register holds the string times `X ^ w`, and being below degree `w` it is the remainder
(`poly_remainder`).
-/

namespace Logic

namespace Crc

open Polynomial

variable {w : Nat}

/-! ## Polynomials -/

/-- The polynomial of a bit string, highest bit first. -/
noncomputable def ofBits : List Bool → (ZMod 2)[X]
  | [] => 0
  | b :: bs => (if b then X ^ bs.length else 0) + ofBits bs

/-- The polynomial of a word. -/
noncomputable def poly (x : BitVec w) : (ZMod 2)[X] :=
  ∑ i ∈ Finset.range w, if x.getLsbD i then X ^ i else 0

/-- The polynomial of a code. -/
noncomputable def generator (g : BitVec w) : (ZMod 2)[X] := X ^ w + poly g

theorem ofBits_concat (bs : List Bool) (b : Bool) :
    ofBits (bs ++ [b]) = ofBits bs * X + if b then 1 else 0 := by
  induction bs with
  | nil => simp [ofBits]
  | cons a bs ih =>
      rw [List.cons_append, ofBits, ofBits, ih, List.length_append, List.length_singleton, add_mul,
        add_assoc, pow_succ]
      cases a with
      | false => simp
      | true => simp

theorem coeff_poly (x : BitVec w) (i : Nat) :
    (poly x).coeff i = if x.getLsbD i then 1 else 0 := by
  have hterm : ∀ j, (if x.getLsbD j then X ^ j else 0 : (ZMod 2)[X]).coeff i =
      if i = j then (if x.getLsbD i then 1 else 0) else 0 := by
    intro j
    split
    · next hj =>
      rw [coeff_X_pow]
      split
      · next heq => rw [heq, if_pos hj]
      · rfl
    · next hj =>
      rw [coeff_zero]
      split
      · next heq => rw [heq, if_neg hj]
      · rfl
  rw [poly, finsetSum_coeff, Finset.sum_congr rfl fun j _ => hterm j, Finset.sum_ite_eq]
  split
  · rfl
  · next hout =>
    have hlow : x.getLsbD i = false :=
      BitVec.getLsbD_of_ge x i (Nat.le_of_not_lt fun h => hout (Finset.mem_range.mpr h))
    rw [hlow, if_neg Bool.false_ne_true]

theorem degree_poly_lt (x : BitVec w) : (poly x).degree < w := by
  refine (degree_lt_iff_coeff_zero _ _).mpr fun i hi => ?_
  rw [coeff_poly, BitVec.getLsbD_of_ge x i hi, if_neg Bool.false_ne_true]

theorem generator_monic (g : BitVec w) : (generator g).Monic := monic_X_pow_add (degree_poly_lt g)

theorem degree_generator (g : BitVec w) : (generator g).degree = w := by
  rw [generator, degree_add_eq_left_of_degree_lt, degree_X_pow]
  rw [degree_X_pow]
  exact degree_poly_lt g

/-! ## Words as polynomials -/

@[simp] theorem poly_zero : poly 0#w = 0 := by
  refine Polynomial.ext fun i => ?_
  simp [coeff_poly]

theorem poly_xor (x y : BitVec w) : poly (x ^^^ y) = poly x + poly y := by
  refine Polynomial.ext fun i => ?_
  rw [coeff_add, coeff_poly, coeff_poly, coeff_poly, BitVec.getLsbD_xor]
  cases x.getLsbD i <;> cases y.getLsbD i <;> decide

/-- A bit in the highest place. -/
theorem poly_top (hw : 0 < w) (b : Bool) :
    poly (top b : BitVec w) * X = if b then X ^ w else 0 := by
  cases b with
  | false =>
      rw [top_false, if_neg Bool.false_ne_true]
      exact (congrArg (· * X) poly_zero).trans (zero_mul X)
  | true =>
      have htop : poly (top true : BitVec w) = X ^ (w - 1) := by
        refine Polynomial.ext fun i => ?_
        rw [coeff_poly, top, if_pos rfl, BitVec.getLsbD_intMin, coeff_X_pow]
        have hlast : i + 1 = w ↔ i = w - 1 := by omega
        simp [hlast]
      rw [htop, ← pow_succ, Nat.sub_add_cancel hw, if_pos rfl]

/-- What is shifted out is `X ^ w`. -/
theorem poly_shiftLeft (x : BitVec w) :
    poly (x <<< 1) + (if x.msb then X ^ w else 0) = poly x * X := by
  have hout : ∀ i, (if x.msb then X ^ w else 0 : (ZMod 2)[X]).coeff i =
      if i = w ∧ x.msb then 1 else 0 := by
    intro i
    cases x.msb with
    | false => simp
    | true => simp [coeff_X_pow]
  refine Polynomial.ext fun i => ?_
  rw [coeff_add, coeff_poly, hout, BitVec.getLsbD_shiftLeft, BitVec.msb_eq_getLsbD_last]
  cases i with
  | zero =>
      have hnone : ¬ (0 = w ∧ x.getLsbD (w - 1) = true) := by
        rintro ⟨rfl, hbit⟩
        simp at hbit
      simp [hnone]
  | succ i =>
      rw [coeff_mul_X, coeff_poly]
      rcases Nat.lt_trichotomy (i + 1) w with h | h | h
      · simp [h, h.ne]
      · simp [← h]
      · have hbit : x.getLsbD i = false := BitVec.getLsbD_of_ge x i (by omega)
        simp [hbit, h.ne', Nat.not_lt.mpr h.le]

/-- Multiplying by the indeterminate, modulo the generator. -/
theorem mk_poly_shift (g x : BitVec w) : AdjoinRoot.mk (generator g) (poly (shift g x)) =
    AdjoinRoot.mk (generator g) (poly x * X) := by
  have hzero : AdjoinRoot.mk (generator g) (X ^ w + poly g) = 0 := AdjoinRoot.mk_self
  rw [← poly_shiftLeft, shift]
  cases hmsb : x.msb with
  | false => simp
  | true =>
      -- putting the generator in changes nothing modulo the generator
      rw [if_pos rfl, if_pos rfl, poly_xor]
      have hsplit : poly (x <<< 1) + X ^ w =
          poly (x <<< 1) + poly g + (X ^ w + poly g) := by
        rw [add_add_add_comm, CharTwo.add_self_eq_zero, add_zero]
      rw [hsplit, map_add _ _ (X ^ w + poly g), hzero, add_zero]

/-- Taking in a bit. -/
theorem mk_poly_feed (hw : 0 < w) (g x : BitVec w) (b : Bool) :
    AdjoinRoot.mk (generator g) (poly (feed g x b)) =
      AdjoinRoot.mk (generator g) (poly x * X + if b then X ^ w else 0) := by
  rw [feed, mk_poly_shift, poly_xor, add_mul, poly_top hw]

/-- The register is what was taken in, times `X ^ w`. -/
theorem mk_poly_remainder (hw : 0 < w) (g : BitVec w) (bs : List Bool) :
    AdjoinRoot.mk (generator g) (poly (remainder g bs)) =
      AdjoinRoot.mk (generator g) (ofBits bs * X ^ w) := by
  induction bs using List.reverseRecOn with
  | nil =>
      rw [remainder, List.foldl_nil, ofBits, zero_mul]
      exact congrArg _ poly_zero
  | append_singleton bs b ih =>
      rw [remainder, List.foldl_append, ← remainder, List.foldl_cons, List.foldl_nil,
        mk_poly_feed hw, map_add, map_mul, ih, ofBits_concat, ← map_mul, ← map_add]
      refine congrArg _ ?_
      cases b with
      | false =>
          rw [if_neg Bool.false_ne_true, if_neg Bool.false_ne_true]
          ring
      | true =>
          rw [if_pos rfl, if_pos rfl]
          ring

/-- The register is the remainder of the string times `X ^ w`. -/
theorem poly_remainder (hw : 0 < w) (g : BitVec w) (bs : List Bool) :
    poly (remainder g bs) = (ofBits bs * X ^ w) %ₘ generator g := by
  have hdvd := AdjoinRoot.mk_eq_mk.mp (mk_poly_remainder hw g bs)
  have hsmall : (poly (remainder g bs)).degree < (generator g).degree := by
    rw [degree_generator]
    exact degree_poly_lt _
  rw [← modByMonic_eq_of_dvd_sub (generator_monic g) hdvd]
  exact ((modByMonic_eq_self_iff (generator_monic g)).mpr hsmall).symm

end Crc

end Logic
