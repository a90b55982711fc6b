import Smbusb.Firmware.DeviceFrames
import Smbusb.Firmware.ErrorDetection
import Smbusb.Firmware.Probing

/-!
# Probing a device

`TEST_COMMAND_WRITE` writes to a command to see how many bytes the device takes, and never means
what it writes.  `ackCount` is the number of bytes that are ACKed, and `score` is the reply for it
(`testCommandWrite_eq`).

At a device that checks packet error codes the writes are of a wrong length or have a wrong packet
error code, and it drops them.  There is one exception: the bytes behind the command are 3 and four
times 0, and if 3 is the packet error code of the address and the command, then 0 is the one of
every longer beginning (`PecHit`).
-/

namespace Smbusb

open Logic Prog Fw Handler

/-- The number of bytes that are ACKed before one is not. -/
def ackCount (T : Target) : List Byte → I2c → Nat
  | [], _ => 0
  | b :: bs, s => if (i2cByteout T b s).1 then ackCount T bs (i2cByteout T b s).2 + 1 else 0

/-- Bytes that are sent until one is not ACKed, and whether an ACK counts. -/
def sendCounting (T : Target) : List (Byte × Bool) → Fw Unit
  | [] => pure ()
  | (b, counts) :: rest => do
      orGoto (i2c (i2cByteout T b)) .tcwOver
      if counts then countAck
      sendCounting T rest

/-- What `TEST_COMMAND_WRITE` sends. -/
def testFrame (smbAddr smbCmd : Byte) : List (Byte × Bool) :=
  [(smbAddr, false), (smbCmd, true), (3, true), (0, true), (0, false), (0, true), (0, true)]

/-- What it replies when so many of them were ACKed. -/
def score (n : Nat) : Nat := (((testFrame 0 0).take n).filter Prod.snd).length

theorem score_le (n : Nat) : score n ≤ 7 :=
  (List.length_filter_le _ _).trans (List.length_take_le' n _)

section

variable {T : Target}

/-- Whether they were all ACKed or not, the ACKs are counted. -/
theorem wp_sendCounting {Q : Fx2 → Prop} (bytes : List (Byte × Bool)) (s : Fx2)
    (h : Q { s with
      toI2c := (sendAll T (bytes.map Prod.fst) s.toI2c).2
      ep0buf := Function.update s.ep0buf 0 (s.ep0buf 0 + BitVec.ofNat 8
        ((bytes.take (ackCount T (bytes.map Prod.fst) s.toI2c)).filter Prod.snd).length) }) :
    wp (sendCounting T bytes) (fun _ => Q) (fun l s' => l = .tcwOver ∧ Q s') s := by
  induction bytes generalizing s with
  | nil =>
      have hsame : Function.update s.ep0buf 0 (s.ep0buf 0 + BitVec.ofNat 8 0) = s.ep0buf := by
        simp
      simp only [List.map_nil, sendAll, List.take_nil, List.filter_nil, List.length_nil,
        hsame] at h
      exact h
  | cons x bytes ih =>
      obtain ⟨b, counts⟩ := x
      simp only [sendCounting, wp_bind, wp_orGoto, wp_i2c]
      simp only [List.map_cons, sendAll, ackCount] at h
      by_cases hack : (i2cByteout T b s.toI2c).1 = true
      · simp only [if_pos hack, List.take_succ_cons] at h ⊢
        cases counts with
        | false =>
            rw [List.filter_cons_of_neg Bool.false_ne_true] at h
            exact ih _ h
        | true =>
            simp only [if_true, countAck, wp_bind, wp_ep0buf, wp_setEp0buf, oob_ep0_zero]
            refine ih _ ?_
            rw [List.filter_cons_of_pos rfl, List.length_cons, Nat.add_comm, BitVec.ofNat_add,
              ← BitVec.add_assoc] at h
            simp only [Function.update_self, Function.update_idem]
            exact h
      · simp only [if_neg hack, List.take_zero, List.filter_nil, List.length_nil,
          BitVec.add_zero, Function.update_eq_self] at h ⊢
        exact ⟨trivial, h⟩

/-- The request, for every target. -/
theorem testCommandWrite_eq (smbAddr smbCmd : Word) {s : Fx2}
    (hstart : (i2cStart T s.toI2c).1 = true) :
    testCommandWrite T smbAddr smbCmd s = .ok true { s with
      toI2c := (sendFrame T ((testFrame (toByte smbAddr) (toByte smbCmd)).map Prod.fst) s.toI2c).2
      ep0buf := Function.update s.ep0buf 0 (BitVec.ofNat 8 (score (ackCount T
        ((testFrame (toByte smbAddr) (toByte smbCmd)).map Prod.fst) (i2cStart T s.toI2c).2)))
      ep0bcl := 1 } := by
  refine run_eq_of_wp ?_
  have hprog : testCommandWrite T smbAddr smbCmd = (do
      setEp0buf 0 0
      if ← i2c (i2cStart T) then
        labels (sendCounting T (testFrame (toByte smbAddr) (toByte smbCmd))) fun _ => pure ()
        i2cDo (i2cStop T)
        setEp0bcl 1
        return true
      else return false) := rfl
  have hscore : ∀ n, (((testFrame (toByte smbAddr) (toByte smbCmd)).take n).filter
      Prod.snd).length = score n := by
    intro n
    have h : ∀ l : List (Byte × Bool), (l.filter Prod.snd).length =
        ((l.map Prod.snd).filter id).length := by
      intro l
      rw [List.filter_map, List.length_map]
      rfl
    rw [score, h, h, List.map_take, List.map_take]
    rfl
  have hframe : (sendFrame T ((testFrame (toByte smbAddr) (toByte smbCmd)).map Prod.fst)
      s.toI2c).2 = i2cStop T (sendAll T ((testFrame (toByte smbAddr) (toByte smbCmd)).map Prod.fst)
        (i2cStart T s.toI2c).2).2 := by
    rw [sendFrame, if_pos hstart]
  rw [hprog, hframe]
  simp only [wp_bind, wp_setEp0buf, wp_i2c, hstart, if_true, oob_ep0_zero, wp_labels]
  refine wp_mono (wp_sendCounting (Q := fun s' => wp (i2cDo (i2cStop T)) _ _ s') _ _ ?_)
    (fun _ _ h => h) fun _ _ h => h.2
  have hzero : ∀ b : Byte, 0 + b = b := BitVec.zero_add
  rw [hscore]
  simp only [wp_i2cDo, wp_setEp0bcl, wp_pure, Function.update_self, Function.update_idem, hzero]
  exact ⟨trivial, trivial⟩

end

namespace BusDevice

variable {D : Type} (dev : BusDevice D)

/-- The number of bytes that the device takes. -/
def takes : List Byte → Slave D → Nat
  | [], _ => 0
  | b :: bs, σ => if (dev.take b σ).phase = .idle then 0 else takes bs (dev.take b σ) + 1

variable {dev} {line : BusLine} {d m : D} {σ : Slave D} {a cmd : Byte}

/-- On a calm line a byte that the device has no use for is not ACKed. -/
theorem calm_nack (hcalm : line.Calm) {b : Byte} (s : I2c) (hσ : dev.after line d s.trace = σ)
    (h : (dev.take b σ).phase = .idle) : (i2cByteout (dev.target line d) b s).1 = false ∧
      dev.after line d (i2cByteout (dev.target line d) b s).2.trace = drop σ := by
  have hout : (dev.target line d).out s.trace b = (line.delay s.trace, .nack) := by
    simp [target, hcalm.garbles, hσ, h]
  refine ⟨by simp [i2cByteout, hout, I2c.await, hcalm.delay s.trace], ?_⟩
  simp only [i2cByteout, hout, I2c.await, hcalm.delay s.trace, if_true, I2c.log_trace, after_snoc,
    hσ]
  rfl

/-- It ACKs what it takes. -/
theorem calm_ackCount (hcalm : line.Calm) (bs : List Byte) (s : I2c)
    (hσ : dev.after line d s.trace = σ) :
    ackCount (dev.target line d) bs s = dev.takes bs σ ∧
      dev.after line d (sendAll (dev.target line d) bs s).2.trace =
        if dev.takes bs σ = bs.length then dev.takeAll bs σ else
          drop (dev.takeAll (bs.take (dev.takes bs σ)) σ) := by
  induction bs generalizing s σ with
  | nil => exact ⟨rfl, hσ⟩
  | cons b bs ih =>
      by_cases hidle : (dev.take b σ).phase = .idle
      · obtain ⟨hno, hend⟩ := calm_nack hcalm s hσ hidle
        simp only [ackCount, sendAll, takes, if_pos hidle, hno, Bool.false_eq_true, if_false, hend]
        exact ⟨trivial, rfl⟩
      · have hack : (i2cByteout (dev.target line d) b s).1 = true :=
          calm_byteout hcalm s (by rwa [hσ])
        have hafter : dev.after line d (i2cByteout (dev.target line d) b s).2.trace =
            dev.take b σ := by
          rcases after_byteout b s hσ with ⟨-, -, h⟩ | ⟨hno, -⟩
          · exact h
          · rw [hack] at hno
            exact Bool.noConfusion hno
        obtain ⟨hcount, hend⟩ := ih _ hafter
        simp only [ackCount, sendAll, takes, if_neg hidle, if_pos hack, hcount, hend,
          List.length_cons, Nat.add_right_cancel_iff, takeAll_cons, List.take_succ_cons]
        exact ⟨trivial, trivial⟩

/-! ## Commands -/

/-- The packet error code of the address and a command is the byte behind them. -/
def PecHit (dev : BusDevice D) (cmd : Byte) : Prop := crc8 [dev.addr, cmd] = 3

instance (cmd : Byte) : Decidable (dev.PecHit cmd) := inferInstanceAs (Decidable (_ = _))

/-- The bytes of the probe that the device takes. -/
def probeTakes (dev : BusDevice D) (cmd : Byte) : Nat :=
  match dev.format cmd with
  | none => 1
  | some .send => if dev.PecHit cmd then 3 else 2
  | some .byte => if dev.PecHit cmd then 4 else 3
  | some .word => if dev.PecHit cmd then 5 else 4
  | some .block => if dev.PecHit cmd then 7 else 6

/-- The reply of the probe. -/
def writability (dev : BusDevice D) (cmd : Byte) : Nat := score (dev.probeTakes cmd)

/-- What it leaves behind. -/
def probeWrite (dev : BusDevice D) (cmd : Byte) (m : D) : D :=
  if dev.format cmd = some .block ∧ dev.PecHit cmd then dev.write cmd [0, 0, 0] m else m

/-- The packet error code of 0 behind a packet error code of 0. -/
theorem crc8_zeros (bs : List Byte) : crc8 (bs ++ [0]) = 0 ↔ crc8 bs = 0 := by
  rw [crc8_concat_eq_zero, eq_comm]

/-- A beginning of the bytes has the packet error code 0 if there is a hit. -/
theorem crc8_testFrame (dev : BusDevice D) (cmd : Byte) :
    (crc8 [dev.addr, cmd, 3#8] = 0#8 ↔ dev.PecHit cmd) ∧
      (crc8 [dev.addr, cmd, 3#8, 0#8] = 0#8 ↔ dev.PecHit cmd) ∧
      (crc8 [dev.addr, cmd, 3#8, 0#8, 0#8, 0#8] = 0#8 ↔ dev.PecHit cmd) := by
  have hzero : crc8 [dev.addr, cmd, 3] = 0 ↔ dev.PecHit cmd :=
    (crc8_concat_eq_zero [dev.addr, cmd] 3).trans eq_comm
  have hzero₁ : crc8 [dev.addr, cmd, 3, 0] = 0 ↔ dev.PecHit cmd :=
    (crc8_zeros [dev.addr, cmd, 3]).trans hzero
  have hzero₂ : crc8 [dev.addr, cmd, 3, 0, 0] = 0 ↔ dev.PecHit cmd :=
    (crc8_zeros [dev.addr, cmd, 3, 0]).trans hzero₁
  have hzero₃ : crc8 [dev.addr, cmd, 3, 0, 0, 0] = 0 ↔ dev.PecHit cmd :=
    (crc8_zeros [dev.addr, cmd, 3, 0, 0]).trans hzero₂
  exact ⟨hzero, hzero₁, hzero₃⟩

theorem take_addr (dev : BusDevice D) (m : D) :
    dev.take dev.addr ⟨.begun, m⟩ = ⟨.addressed, m⟩ := by
  simp only [take, if_true]

theorem take_cmd (dev : BusDevice D) (cmd : Byte) (m : D) : dev.take cmd ⟨.addressed, m⟩ =
    ⟨match dev.format cmd with | some f => .writing cmd f [] | none => .idle, m⟩ := rfl

theorem take_writing (dev : BusDevice D) (cmd : Byte) (f : Format) (bs : List Byte) (b : Byte)
    (m : D) : dev.take b ⟨.writing cmd f bs, m⟩ =
      if f.more bs then ⟨.writing cmd f (bs ++ [b]), m⟩
      else if b = crc8 (dev.addr :: cmd :: bs) then ⟨.checked cmd f bs, m⟩ else ⟨.idle, m⟩ := by
  simp only [take]
  split
  · rfl
  · split <;> rfl

theorem take_checked (dev : BusDevice D) (cmd : Byte) (f : Format) (bs : List Byte) (b : Byte)
    (m : D) : dev.take b ⟨.checked cmd f bs, m⟩ = ⟨.idle, m⟩ := rfl

theorem take_idle (dev : BusDevice D) (b : Byte) (m : D) : dev.take b ⟨.idle, m⟩ = ⟨.idle, m⟩ := rfl

/-- The device takes a part of the bytes, and is left with a write only behind all of them. -/
theorem takes_testFrame (dev : BusDevice D) (cmd : Byte) (m : D) :
    dev.takes ((testFrame dev.addr cmd).map Prod.fst) ⟨.begun, m⟩ = dev.probeTakes cmd ∧
      (dev.stop (if dev.probeTakes cmd = 7 then
        dev.takeAll ((testFrame dev.addr cmd).map Prod.fst) ⟨.begun, m⟩ else
          drop (dev.takeAll (((testFrame dev.addr cmd).map Prod.fst).take (dev.probeTakes cmd))
            ⟨.begun, m⟩))).mem = dev.probeWrite cmd m := by
  obtain ⟨h₁, h₂, h₃⟩ := crc8_testFrame dev cmd
  have h₀ : crc8 [dev.addr, cmd] = 3#8 ↔ dev.PecHit cmd := Iff.rfl
  simp only [testFrame, List.map_cons, List.map_nil, probeTakes, probeWrite]
  cases hformat : dev.format cmd with
  | none => simp [takes, takeAll, take_addr, take_cmd, hformat, drop, stop]
  | some f =>
      by_cases hhit : dev.PecHit cmd
      · rw [← h₀] at hhit
        have hhit₁ := h₁.mpr (h₀.mp hhit)
        have hhit₂ := h₂.mpr (h₀.mp hhit)
        have hhit₃ := h₃.mpr (h₀.mp hhit)
        cases f with
        | send =>
            simp [takes, takeAll, take_addr, take_cmd, hformat, take_writing, take_checked,
              Format.more, PecHit, hhit, stop]
        | byte =>
            simp [takes, takeAll, take_addr, take_cmd, hformat, take_writing, take_checked,
              Format.more, PecHit, hhit, hhit₁, stop]
        | word =>
            simp [takes, takeAll, take_addr, take_cmd, hformat, take_writing, take_checked,
              Format.more, PecHit, hhit, hhit₂, stop]
        | block =>
            simp [takes, takeAll, take_addr, take_cmd, hformat, take_writing, Format.more,
              Format.decode, PecHit, hhit, hhit₃, stop]
      · have hno : ¬ 3#8 = crc8 [dev.addr, cmd] := fun h => hhit h.symm
        have hno₁ : ¬ 0#8 = crc8 [dev.addr, cmd, 3#8] := fun h => hhit (h₁.mp h.symm)
        have hno₂ : ¬ 0#8 = crc8 [dev.addr, cmd, 3#8, 0#8] := fun h => hhit (h₂.mp h.symm)
        have hno₃ : ¬ 0#8 = crc8 [dev.addr, cmd, 3#8, 0#8, 0#8, 0#8] :=
          fun h => hhit (h₃.mp h.symm)
        cases f with
        | send =>
            simp [takes, takeAll, take_addr, take_cmd, hformat, take_writing, Format.more, hhit,
              hno, stop]
        | byte =>
            simp [takes, takeAll, take_addr, take_cmd, hformat, take_writing, Format.more, hhit,
              hno₁, stop]
        | word =>
            simp [takes, takeAll, take_addr, take_cmd, hformat, take_writing, Format.more, hhit,
              hno₂, stop]
        | block =>
            simp [takes, takeAll, take_addr, take_cmd, hformat, take_writing, Format.more, hhit,
              hno₃, stop]

end BusDevice

end Smbusb
