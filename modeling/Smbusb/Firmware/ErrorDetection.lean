import Smbusb.Firmware.ReadRequests
import Smbusb.Logic.Crc

/-!
# Errors the packet error code notices

What the check of a read request notices, for messages of every length and errors at every
place.

`pec_crc` is the register of `Logic.Crc`, eight bits at once (`foldl_pecCrc`), for the
polynomial x^8 + x^2 + x + 1.  This one is odd, has four terms, and its period is 127
(`pecPoly_period`).

Address, command and count are added in front of the bytes received, and the packet error code
behind them.  When these bytes differ from a correct frame, the check fails exactly when the
errors alone have a remainder (`pecWrong_received`).  So the address, the command and the data
do not matter.
-/

namespace Smbusb

open Logic Prog Fw Handler

/-! ## The packet error code -/

/-- The polynomial of the packet error code, without its leading bit. -/
def pecPoly : Byte := 0x07

theorem pecBit_eq_shift : pecBit = Crc.shift pecPoly := by
  have h : ∀ d : Byte, pecBit d = Crc.shift pecPoly d := by decide
  exact funext h

theorem pecPoly_odd : pecPoly.getLsbD 0 = true := rfl

theorem pecPoly_parity : Crc.parity (Crc.bits pecPoly) = true := by decide

theorem pecPoly_period : Function.minimalPeriod (Crc.shift pecPoly) pecPoly = 127 := by
  have : Fact (Nat.Prime 127) := ⟨by norm_num⟩
  refine Function.minimalPeriod_eq_prime ?_ ?_
  · decide +kernel
  · decide

theorem foldl_pecCrc (bs : List Byte) (x : Byte) :
    bs.foldl pecCrc x = (Crc.stream bs).foldl (Crc.feed pecPoly) x := by
  rw [Crc.foldl_feed_stream, ← pecBit_eq_shift]
  rfl

/-! ## Frames with errors -/

/-- What is received when a frame has these errors. -/
def received (frame errors : List Byte) : List Byte := List.zipWith (· ^^^ ·) frame errors

/-- The packet error code of a string that ends in its own packet error code is 0. -/
theorem crc8_concat_eq_zero (bs : List Byte) (p : Byte) : crc8 (bs ++ [p]) = 0 ↔ p = crc8 bs := by
  rw [crc8_snoc, pecCrc, pecBit_eq_shift, Crc.shift_iterate_eq_zero pecPoly_odd, @eq_comm _ p]
  exact BitVec.xor_eq_zero_iff

variable {smbAddr smbCmd : Word}

theorem pecWrong_iff {vs : List Byte} (hne : vs ≠ []) :
    PecWrong smbAddr smbCmd vs ↔ crc8 (readAddress smbAddr smbCmd ++ vs) ≠ 0 := by
  obtain ⟨data, p, rfl⟩ : ∃ data p, vs = data ++ [p] :=
    ⟨vs.dropLast, vs.getLast hne, (List.dropLast_append_getLast hne).symm⟩
  rw [PecWrong, List.getLastD_concat, List.dropLast_concat, ← List.append_assoc, ne_eq, ne_eq,
    crc8_concat_eq_zero]

/-- A check fails exactly when the errors have a remainder. -/
theorem pecWrong_received {frame errors : List Byte} (hne : frame ≠ [])
    (hlen : frame.length = errors.length) (hframe : ¬ PecWrong smbAddr smbCmd frame) :
    PecWrong smbAddr smbCmd (received frame errors) ↔
      Crc.remainder pecPoly (Crc.stream errors) ≠ 0 := by
  have hne' : received frame errors ≠ [] := by
    have hpos := List.length_pos_iff.mpr hne
    refine List.length_pos_iff.mp ?_
    rw [received, List.length_zipWith, ← hlen, Nat.min_self]
    exact hpos
  have hstream : (Crc.stream frame).length = (Crc.stream errors).length := by
    rw [Crc.length_stream, Crc.length_stream, hlen]
  rw [pecWrong_iff hne, not_not, crc8, List.foldl_append, foldl_pecCrc frame] at hframe
  rw [pecWrong_iff hne', crc8, List.foldl_append, foldl_pecCrc, received, Crc.stream_xor hlen,
    Crc.remainder_add hstream, hframe]
  exact not_congr (iff_of_eq (congrArg (· = 0) BitVec.zero_xor))

/-- The errors that the packet error code promises to notice. -/
def Noticeable (errors : List Byte) : Prop :=
  Odd ((Crc.stream errors).count true) ∨ Crc.Burst 8 (Crc.stream errors) ∨
    ∃ i j, Crc.Pair i j (Crc.stream errors) ∧ ¬ 127 ∣ j - i

/-- Two errors at a distance that it never notices. -/
def Unnoticeable (errors : List Byte) : Prop :=
  ∃ i j, Crc.Pair i j (Crc.stream errors) ∧ 127 ∣ j - i

theorem Noticeable.remainder {errors : List Byte} (h : Noticeable errors) :
    Crc.remainder pecPoly (Crc.stream errors) ≠ 0 := by
  rcases h with hodd | hburst | ⟨i, j, hpair, hdist⟩
  · exact Crc.remainder_odd pecPoly_parity hodd
  · exact Crc.remainder_burst pecPoly_odd hburst
  · rw [ne_eq, Crc.remainder_pair pecPoly_odd hpair, pecPoly_period]
    exact hdist

theorem Unnoticeable.remainder {errors : List Byte} (h : Unnoticeable errors) :
    Crc.remainder pecPoly (Crc.stream errors) = 0 := by
  obtain ⟨i, j, hpair, hdist⟩ := h
  rw [Crc.remainder_pair pecPoly_odd hpair, pecPoly_period]
  exact hdist

/-! ## Requests -/

/-- A read that is addressed and whose count is good reports what its check says. -/
theorem ReadEnd.checked {T : Target} {kind : ReadKind} {s s' : Fx2} {ok : Bool} {b b' : I2c}
    {vs : List Byte} (hend : ReadEnd T kind smbAddr smbCmd s ok s')
    (haddr : addressRead T smbAddr smbCmd s.toI2c = (some true, b)) (hon : s.pecEnabled = true)
    (hcount : kind = .block → (countCall T b).1 ≠ 0 ∧ (countCall T b).1 < 0xFE)
    (hreads : transfer T true true (kind.calls true (countCall T b).1)
      (kind.calls true (countCall T b).1) b = (vs, b')) :
    (PecWrong smbAddr smbCmd vs → ok = false ∧ s'.pecFailed = true) ∧
      (¬ PecWrong smbAddr smbCmd vs → ok = true ∧ s'.pecFailed = s.pecFailed) := by
  cases hend with
  | noStart h _ _ =>
      rw [haddr] at h
      cases h
  | nack h _ _ =>
      rw [haddr] at h
      cases h
  | refused h hkind hc hbad _ _ =>
      rw [haddr] at h
      cases h
      rw [hc] at hcount
      rcases hbad with rfl | rfl
      · exact absurd rfl (hcount hkind).1
      · exact absurd (hcount hkind).2 (show ¬ (0xFF : Byte) < 0xFE by decide)
  | wrapped h hkind hc _ _ _ _ =>
      rw [haddr] at h
      cases h
      rw [hc] at hcount
      exact absurd (hcount hkind).2 (show ¬ (0xFE : Byte) < 0xFE by decide)
  | mismatch h _ hrow _ hwrong _ hfailed =>
      rw [haddr] at h
      cases h
      rw [hon, hreads] at hrow
      cases hrow
      exact ⟨fun _ => ⟨rfl, hfailed⟩, fun hright => absurd hwrong hright⟩
  | done h _ hrow hright _ hsame _ _ =>
      rw [haddr] at h
      cases h
      rw [hon, hreads] at hrow
      cases hrow
      exact ⟨fun hwrong => absurd hwrong (hright hon), fun _ => ⟨rfl, hsame⟩⟩

/-- A checked read whose target is addressed, for every frame and every error in it: the errors
of `Noticeable` make it fail, and those of `Unnoticeable` never do. -/
theorem pec_detects (T : Target) {fuel : Nat} (hfuel : 256 ≤ fuel) (kind : ReadKind)
    (setup : Setup) {s : Fx2} (hidle : kind = .block → s.Idle) (hon : s.pecEnabled = true)
    {b b' : I2c} (haddr : addressRead T setup.value setup.index s.toI2c = (some true, b))
    (hcount : kind = .block → (countCall T b).1 ≠ 0 ∧ (countCall T b).1 < 0xFE)
    {frame errors : List Byte} (hlen : frame.length = errors.length)
    (hframe : ¬ PecWrong setup.value setup.index frame)
    (hreads : transfer T true true (kind.calls true (countCall T b).1)
      (kind.calls true (countCall T b).1) b = (received frame errors, b')) :
    ∃ ok s', handleVendorcommand T fuel kind.code setup s = .ok ok s' ∧
      (Noticeable errors → ok = false ∧ s'.pecFailed = true) ∧
      (Unnoticeable errors → ok = true ∧ s'.pecFailed = s.pecFailed) := by
  obtain ⟨ok, s', hrun, hend⟩ := readRequest_ends T hfuel kind setup hidle
  obtain ⟨hwrong, hright⟩ := hend.checked haddr hon hcount hreads
  have hne : frame ≠ [] := by
    rintro rfl
    have hnone := congrArg (fun r => r.1.length) hreads
    rw [length_transfer] at hnone
    have hpos : 0 < kind.calls true (countCall T b).1 := by
      cases kind <;> simp [ReadKind.calls]
    exact Nat.ne_of_gt hpos hnone
  rw [pecWrong_received hne hlen hframe] at hwrong hright
  exact ⟨ok, s', hrun, fun h => hwrong h.remainder, fun h => hright (not_not.mpr h.remainder)⟩

/-- A `READ_BYTE` of 0x12 whose data byte has one wrong bit. -/
theorem pec_detects_bit : ∃ s', handleVendorcommand
    (Target.answers [0x13, crc8 [0x16, 8, 0x17, 0x12]]) 256 ReadKind.byte.code ⟨0x16, 8⟩ Fx2.init =
      .ok false s' ∧ s'.pecFailed = true := by
  have haddr : addressRead (Target.answers [0x13, crc8 [0x16, 8, 0x17, 0x12]]) 0x16 8
      Fx2.init.toI2c = (some true, (addressRead (Target.answers [0x13,
        crc8 [0x16, 8, 0x17, 0x12]]) 0x16 8 Fx2.init.toI2c).2) := Prod.ext (by decide +kernel) rfl
  have hvalues : (transfer (Target.answers [0x13, crc8 [0x16, 8, 0x17, 0x12]]) true true 2 2
      (addressRead (Target.answers [0x13, crc8 [0x16, 8, 0x17, 0x12]]) 0x16 8
        Fx2.init.toI2c).2).1 = received [0x12, crc8 [0x16, 8, 0x17, 0x12]] [1, 0] := by
    decide +kernel
  generalize (addressRead (Target.answers [0x13, crc8 [0x16, 8, 0x17, 0x12]]) 0x16 8
    Fx2.init.toI2c).2 = b at haddr hvalues
  have hframe : ¬ PecWrong 0x16 8 [0x12, crc8 [0x16, 8, 0x17, 0x12]] := by decide +kernel
  have hlen : ([0x12, crc8 [0x16, 8, 0x17, 0x12]] : List Byte).length =
      ([1, 0] : List Byte).length := by simp only [List.length_cons, List.length_nil]
  have hodd : Noticeable [1, 0] := Or.inl (Crc.parity_iff.mp rfl)
  obtain ⟨ok, s', hrun, hnoticed, -⟩ := pec_detects
    (Target.answers [0x13, crc8 [0x16, 8, 0x17, 0x12]]) (Nat.le_refl 256) .byte ⟨0x16, 8⟩
    (s := Fx2.init) nofun rfl haddr nofun hlen hframe (Prod.ext hvalues rfl)
  obtain ⟨rfl, hfailed⟩ := hnoticed hodd
  exact ⟨s', hrun, hfailed⟩

end Smbusb
