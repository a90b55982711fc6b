import Smbusb.Firmware.Sending

/-!
# Probing in the firmware

`TEST_ADDRESS_ACK` and `TEST_COMMAND_ACK` send one or two bytes and reply 0xFF if the last
of them was ACKed, and 0 if not.  Both are `probeFrame` of their bytes, which says what
the bus sees of them for every target.

A START that fails is the only way for such a request to fail.  It is not followed by a
STOP.
-/

namespace Smbusb

open Logic Prog Fw Handler

/-- START, the bytes until one is not ACKed, STOP.  No result if the START failed. -/
def probeFrame (T : Target) (bytes : List Byte) (s : I2c) : Option Bool × I2c :=
  let r := i2cStart T s
  if r.1 then (some (sendAll T bytes r.2).1, i2cStop T (sendAll T bytes r.2).2)
  else (none, r.2)

variable {T : Target}

/-- The bytes a probe puts on the bus are a beginning of its own. -/
theorem sentBytes_probeFrame (bytes : List Byte) (s : I2c) :
    ∃ ext, Extends s ext (probeFrame T bytes s).2 ∧ sentBytes ext <+: bytes := by
  obtain ⟨ext, hext, hnil⟩ := i2cStart_extends (T := T) s
  cases h : (i2cStart T s).1 with
  | true =>
      obtain ⟨ext', hext', hpre, -⟩ := sendAll_extends (T := T) bytes (i2cStart T s).2
      refine ⟨ext ++ ext' ++ [.stop], ?_, ?_⟩
      · simp only [probeFrame, h, if_true]
        exact (hext.trans hext').trans (i2cStop_extends T _)
      · have hstop : sentBytes [Event.stop] = [] := rfl
        simpa [hnil, hstop] using hpre
  | false =>
      refine ⟨ext, ?_, ?_⟩
      · simp only [probeFrame, h, Bool.false_eq_true, if_false]
        exact hext
      · rw [hnil]
        exact List.nil_prefix

/-! ## The requests -/

/-- The state behind a probe: the reply says whether the bytes were ACKed. -/
def Fx2.probed (s : Fx2) (r : Option Bool × I2c) : Fx2 :=
  match r.1 with
  | none => { s with toI2c := r.2 }
  | some ack =>
      { s with
        toI2c := r.2
        ep0buf := Function.update s.ep0buf 0 (if ack then 0xFF else 0)
        ep0bcl := 1 }

/-- A run that does not jump is the one its postcondition names. -/
theorem run_eq_of_wp {m : Fw Bool} {s t : Fx2} {ok : Bool}
    (h : wp m (fun b s' => b = ok ∧ s' = t) (fun _ _ => False) s) : m s = .ok ok t := by
  obtain ⟨b, s', hrun, rfl, rfl⟩ := exists_run_of_wp h
  exact hrun

/-- Storing the reply of a probe stays inside `EP0BUF`. -/
theorem oob_ep0_zero (o : Bool) : (o || decide (ep0Size ≤ 0)) = o := by
  simp [ep0Size]

@[simp] theorem Fx2.probed_toI2c (s : Fx2) (r : Option Bool × I2c) :
    (s.probed r).toI2c = r.2 := by
  unfold Fx2.probed
  split <;> rfl

theorem testAddressAck_eq (smbAddr : Word) (s : Fx2) :
    testAddressAck T smbAddr s =
      .ok (probeFrame T [toByte smbAddr] s.toI2c).1.isSome
        (s.probed (probeFrame T [toByte smbAddr] s.toI2c)) := by
  refine run_eq_of_wp ?_
  simp only [testAddressAck, wp_bind, wp_i2c, probeFrame, sendAll]
  generalize i2cStart T s.toI2c = r
  obtain ⟨started, b⟩ := r
  cases started with
  | false => exact ⟨rfl, rfl⟩
  | true =>
      simp only [if_true, wp_bind, wp_i2c, wp_i2cDo, wp_setEp0buf, wp_setEp0bcl, wp_pure,
        oob_ep0_zero]
      generalize i2cByteout T (toByte smbAddr) b = r
      obtain ⟨ack, b'⟩ := r
      cases ack with
      | false => exact ⟨rfl, rfl⟩
      | true => exact ⟨rfl, rfl⟩

theorem testCommandAck_eq (smbAddr smbCmd : Word) (s : Fx2) :
    testCommandAck T smbAddr smbCmd s =
      .ok (probeFrame T [toByte smbAddr, toByte smbCmd] s.toI2c).1.isSome
        (s.probed (probeFrame T [toByte smbAddr, toByte smbCmd] s.toI2c)) := by
  refine run_eq_of_wp ?_
  simp only [testCommandAck, wp_bind, wp_i2c, probeFrame, sendAll]
  generalize i2cStart T s.toI2c = r
  obtain ⟨started, b⟩ := r
  cases started with
  | false => exact ⟨rfl, rfl⟩
  | true =>
      simp only [if_true, wp_bind, wp_labels, wp_orGoto, wp_i2c, wp_i2cDo, wp_setEp0buf,
        wp_setEp0bcl, wp_pure, oob_ep0_zero]
      generalize i2cByteout T (toByte smbAddr) b = r
      obtain ⟨ack, b'⟩ := r
      cases ack with
      | false => exact ⟨rfl, rfl⟩
      | true =>
          simp only [if_true]
          generalize i2cByteout T (toByte smbCmd) b' = r
          obtain ⟨ack, b''⟩ := r
          cases ack with
          | false => exact ⟨rfl, rfl⟩
          | true => exact ⟨rfl, rfl⟩

end Smbusb
