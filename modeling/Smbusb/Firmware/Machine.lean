import Smbusb.Firmware.Controller

/-!
# The state of the firmware

`Fx2` adds to the I2C part the globals of `smbusb_firmware.c` and the buffer of
endpoint 0.  A vendor request is handled by a program over these states, `Fw`,
whose labels are the labels of `handle_vendorcommand`.

*Arrays.*  `temp` and `EP0BUF` are memories whose arrays end at `tempSize` and
`ep0Size`.  An access past the end is undefined in C.  The model lets it hit the
cell it names, which is a cell of no other variable, and records it in `oob`.  No
program reads `oob`.

*Endpoint 0.*  The data stage of an OUT request is in `EP0BUF` when the handler
looks at it.  The reply to an IN request is the first `EP0BCL` bytes of `EP0BUF`;
`EP0BCH` is 0 in every handler.
-/

namespace Smbusb

open Logic

/-! ## The packet error code -/

/-- One turn of the loop of `pec_crc`. -/
def pecBit (data : Byte) : Byte :=
  if data &&& 0x80 ≠ 0 then (data <<< 1) ^^^ 0x07 else data <<< 1

/-- `pec_crc`. -/
def pecCrc (crc data : Byte) : Byte := pecBit^[8] (crc ^^^ data)

/-- `pec_crc` folded over a byte string, from 0. -/
def crc8 (bs : List Byte) : Byte := bs.foldl pecCrc 0

theorem crc8_snoc (bs : List Byte) (b : Byte) : crc8 (bs ++ [b]) = pecCrc (crc8 bs) b := by
  simp [crc8]

/-! ## Counters -/

/-- A `BYTE` counter before it wraps. -/
theorem toNat_succ {i : Byte} (h : i.toNat < 255) : (i + 1).toNat = i.toNat + 1 := by
  have h1 : (1 : Byte).toNat = 1 := rfl
  rw [BitVec.toNat_add, h1]
  omega

/-! ## States -/

/-- `temp` has 192 bytes. -/
def tempSize : Nat := 192

/-- `EP0BUF` has 64 bytes. -/
def ep0Size : Nat := 64

/-- `BLOCK_SEQ_TIMEOUT`. -/
def blockSeqTimeout : Word := 5

/-- The state of the firmware. -/
structure Fx2 extends I2c where
  /-- `pec_enabled`. -/
  pecEnabled : Bool
  /-- `pec_failed`. -/
  pecFailed : Bool
  /-- `temp`. -/
  temp : Mem Byte
  /-- `tempptr`. -/
  tempptr : Word
  /-- `templen`. -/
  templen : Word
  /-- `mrq_pec`. -/
  mrqPec : Byte
  /-- `rcv_pec`. -/
  rcvPec : Byte
  /-- `EP0BUF`. -/
  ep0buf : Mem Byte
  /-- `EP0BCL`. -/
  ep0bcl : Byte
  /-- An access past the end of `temp` or `EP0BUF` has been made. -/
  oob : Bool

/-- The state at power-on. -/
def Fx2.init : Fx2 where
  count := 0
  i2dat := 0
  lastrdBit := false
  trace := []
  pecEnabled := true
  pecFailed := false
  temp := fun _ => 0
  tempptr := 0
  templen := 0
  mrqPec := 0
  rcvPec := 0
  ep0buf := fun _ => 0
  ep0bcl := 0
  oob := false

/-- `timer0_isr`, so many times. -/
def Fx2.tick (s : Fx2) (ticks : Nat) : Fx2 :=
  { s with count := s.count + BitVec.ofNat 16 ticks }

@[simp] theorem Fx2.tick_zero (s : Fx2) : s.tick 0 = s := by
  simp [Fx2.tick]

/-- The reply of the firmware to an IN request for `length` bytes. -/
def Fx2.reply (s : Fx2) (length : Nat) : List Byte :=
  s.ep0buf.read 0 (min s.ep0bcl.toNat length)

/-- The state in which a sequence that is too old is dropped. -/
def Fx2.expire (s : Fx2) : Fx2 :=
  if 0 < s.templen ∧ blockSeqTimeout < s.count then { s with templen := 0, tempptr := 0 } else s

section Expire

variable {s : Fx2}

@[simp] theorem Fx2.expire_toI2c : s.expire.toI2c = s.toI2c := by
  unfold Fx2.expire
  split <;> rfl

@[simp] theorem Fx2.expire_pecEnabled : s.expire.pecEnabled = s.pecEnabled := by
  unfold Fx2.expire
  split <;> rfl

@[simp] theorem Fx2.expire_ep0buf : s.expire.ep0buf = s.ep0buf := by
  unfold Fx2.expire
  split <;> rfl

@[simp] theorem Fx2.expire_oob : s.expire.oob = s.oob := by
  unfold Fx2.expire
  split <;> rfl

/-- A sequence in time is kept. -/
theorem Fx2.expire_of_live (h : s.count ≤ blockSeqTimeout) : s.expire = s := by
  rw [Fx2.expire, if_neg]
  rintro ⟨-, hlate⟩
  rw [BitVec.le_def] at h
  rw [BitVec.lt_def] at hlate
  omega

theorem Fx2.expire_of_empty (h : s.templen = 0) : s.expire = s := by
  rw [Fx2.expire, if_neg]
  rintro ⟨hpos, -⟩
  simp [h] at hpos

/-- A sequence that survives the check at the entry is in time. -/
theorem Fx2.live_of_expire (h : s.expire.templen ≠ 0) : s.count ≤ blockSeqTimeout := by
  by_contra hlate
  refine h ?_
  by_cases hpos : 0 < s.templen
  · rw [Fx2.expire, if_pos ⟨hpos, BitVec.not_le.mp hlate⟩]
  · rw [Fx2.expire, if_neg (fun h => hpos h.1)]
    refine BitVec.eq_of_toNat_eq (Nat.le_zero.mp ?_)
    exact Nat.not_lt.mp hpos

/-- No cursor is past the end of `temp`, and no access ever was. -/
structure Fx2.InBounds (s : Fx2) : Prop where
  ptr : s.tempptr.toNat ≤ s.templen.toNat
  len : s.templen.toNat ≤ tempSize
  oob : s.oob = false

theorem Fx2.InBounds.expire (h : s.InBounds) : s.expire.InBounds := by
  refine ⟨?_, ?_, by rw [Fx2.expire_oob, h.oob]⟩
  · unfold Fx2.expire
    split
    · exact Nat.le_refl _
    · exact h.ptr
  · unfold Fx2.expire
    split
    · exact Nat.zero_le _
    · exact h.len

theorem Fx2.InBounds.tick (h : s.InBounds) (ticks : Nat) : (s.tick ticks).InBounds :=
  ⟨h.ptr, h.len, h.oob⟩

end Expire

/-- The labels of `handle_vendorcommand`. -/
inductive Label where
  | rbfail
  | wbfail
  | rwfail
  | wwfail
  | rlstopfail
  | rlfail
  | wlfail
  | wafail
  | tcaFail
  | tcwOver
deriving DecidableEq, Repr

/-- A part of `handle_vendorcommand`. -/
abbrev Fw := Prog Label Fx2

namespace Fw

variable {A : Type}

/-- Call an I2C function. -/
def i2c (f : I2c → A × I2c) : Fw A :=
  Prog.lift fun s => ((f s.toI2c).1, { s with toI2c := (f s.toI2c).2 })

/-- Call an I2C function without a result. -/
def i2cDo (f : I2c → I2c) : Fw Unit := i2c fun s => ((), f s)

/-- `temp[i]`. -/
def temp (i : Nat) : Fw Byte :=
  Prog.lift fun s => (s.temp i, { s with oob := s.oob || decide (tempSize ≤ i) })

/-- `temp[i] = b`. -/
def setTemp (i : Nat) (b : Byte) : Fw Unit :=
  modify fun s =>
    { s with temp := Function.update s.temp i b, oob := s.oob || decide (tempSize ≤ i) }

/-- `EP0BUF[i]`. -/
def ep0buf (i : Nat) : Fw Byte :=
  Prog.lift fun s => (s.ep0buf i, { s with oob := s.oob || decide (ep0Size ≤ i) })

/-- `EP0BUF[i] = b`. -/
def setEp0buf (i : Nat) (b : Byte) : Fw Unit :=
  modify fun s =>
    { s with ep0buf := Function.update s.ep0buf i b, oob := s.oob || decide (ep0Size ≤ i) }

/-- `EP0BCH = 0; EP0BCL = n`: the length of the reply. -/
def setEp0bcl (n : Byte) : Fw Unit := modify fun s => { s with ep0bcl := n }

/-! ## Weakest preconditions of the primitives -/

variable {Q : A → Fx2 → Prop} {E : Label → Fx2 → Prop} {s : Fx2}

@[simp] theorem wp_i2c (f : I2c → A × I2c) :
    Prog.wp (i2c f) Q E s ↔ Q (f s.toI2c).1 { s with toI2c := (f s.toI2c).2 } := Iff.rfl

@[simp] theorem wp_i2cDo {Q : Unit → Fx2 → Prop} (f : I2c → I2c) :
    Prog.wp (i2cDo f) Q E s ↔ Q () { s with toI2c := f s.toI2c } := Iff.rfl

@[simp] theorem wp_temp {Q : Byte → Fx2 → Prop} (i : Nat) :
    Prog.wp (temp i) Q E s ↔
      Q (s.temp i) { s with oob := s.oob || decide (tempSize ≤ i) } := Iff.rfl

@[simp] theorem wp_setTemp {Q : Unit → Fx2 → Prop} (i : Nat) (b : Byte) :
    Prog.wp (setTemp i b) Q E s ↔
      Q () { s with temp := Function.update s.temp i b,
                    oob := s.oob || decide (tempSize ≤ i) } := Iff.rfl

@[simp] theorem wp_ep0buf {Q : Byte → Fx2 → Prop} (i : Nat) :
    Prog.wp (ep0buf i) Q E s ↔
      Q (s.ep0buf i) { s with oob := s.oob || decide (ep0Size ≤ i) } := Iff.rfl

@[simp] theorem wp_setEp0buf {Q : Unit → Fx2 → Prop} (i : Nat) (b : Byte) :
    Prog.wp (setEp0buf i b) Q E s ↔
      Q () { s with ep0buf := Function.update s.ep0buf i b,
                    oob := s.oob || decide (ep0Size ≤ i) } := Iff.rfl

@[simp] theorem wp_setEp0bcl {Q : Unit → Fx2 → Prop} (n : Byte) :
    Prog.wp (setEp0bcl n) Q E s ↔ Q () { s with ep0bcl := n } := Iff.rfl

end Fw

end Smbusb
