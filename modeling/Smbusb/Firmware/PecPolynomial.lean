import Smbusb.Firmware.ErrorDetection
import Smbusb.Logic.CrcPolynomial

/-!
# The packet error code as a remainder

What the standard calls CRC-8: `pec_crc`, folded over a message from 0, divides the polynomial of
the message, times x^8, by x^8 + x^2 + x + 1, and gives the remainder.

The eight turns of `pec_crc` take in the bits of one byte, so the fold is one run of the register
of `Logic.Crc` over the bits of the whole message (`crc8_eq_remainder`).  A fold that is continued
in a later request goes on with the same register.
-/

namespace Smbusb

open Logic Polynomial

/-- The polynomial of a message, the highest bit of the first byte first. -/
noncomputable def messagePoly (m : List Byte) : (ZMod 2)[X] := Crc.ofBits (Crc.stream m)

theorem crc8_eq_remainder (m : List Byte) : crc8 m = Crc.remainder pecPoly (Crc.stream m) :=
  foldl_pecCrc m 0

theorem generator_pecPoly : Crc.generator pecPoly = X ^ 8 + X ^ 2 + X + 1 := by
  have hpoly : Crc.poly pecPoly = X ^ 2 + X + 1 := by
    have hlow : ∀ i : Fin 8, pecPoly.getLsbD i = decide (i.val < 3) := by decide
    have hbits : ∀ i, pecPoly.getLsbD i = decide (i < 3) := by
      intro i
      rcases Nat.lt_or_ge i 8 with hin | hout
      · exact hlow ⟨i, hin⟩
      · rw [BitVec.getLsbD_of_ge _ _ hout, eq_comm, decide_eq_false_iff_not]
        omega
    simp only [Crc.poly, hbits, decide_eq_true_eq, Finset.sum_range_succ, Finset.sum_range_zero]
    norm_num
    ring
  rw [Crc.generator, hpoly, ← add_assoc, ← add_assoc]

/-- Adding two messages adds their codes. -/
theorem crc8_xor {m m' : List Byte} (hlen : m.length = m'.length) :
    crc8 (List.zipWith (· ^^^ ·) m m') = crc8 m ^^^ crc8 m' := by
  have hstream : (Crc.stream m).length = (Crc.stream m').length := by
    rw [Crc.length_stream, Crc.length_stream, hlen]
  rw [crc8_eq_remainder, crc8_eq_remainder, crc8_eq_remainder, Crc.stream_xor hlen]
  exact Crc.remainder_add hstream 0

/-- The packet error code of a message is the remainder of its polynomial times x^8. -/
theorem crc8_polynomial (m : List Byte) :
    (∀ i, ((messagePoly m * X ^ 8) %ₘ (X ^ 8 + X ^ 2 + X + 1)).coeff i =
      if (crc8 m).getLsbD i then 1 else 0) ∧
    (∀ m', m.length = m'.length →
      crc8 (List.zipWith (· ^^^ ·) m m') = crc8 m ^^^ crc8 m') ∧
    ∀ p, crc8 (m ++ [p]) = 0 ↔ p = crc8 m := by
  refine ⟨fun i => ?_, fun m' hlen => crc8_xor hlen, crc8_concat_eq_zero m⟩
  have hrem := Crc.poly_remainder (by decide) pecPoly (Crc.stream m)
  rw [generator_pecPoly, ← crc8_eq_remainder] at hrem
  rw [messagePoly, ← hrem, Crc.coeff_poly]

/-- The codes of 0x01 and 0x02, and of their sum. -/
theorem crc8_polynomial_three : crc8 [0x03] = crc8 [0x01] ^^^ crc8 [0x02] :=
  (crc8_polynomial [0x01]).2.1 [0x02] rfl

end Smbusb
