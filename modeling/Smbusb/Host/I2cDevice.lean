import Smbusb.Firmware.DeviceProbes
import Smbusb.Host.I2cdev

/-!
# A device behind an I2C adapter

What the kernel's I2C adapter makes of a device, as far as the I2CDEV driver can tell.

`Puts` says what becomes of a frame: START, its bytes until one is not ACKed, and STOP.  The device
has a use for every byte, and the call succeeds; or it has not, and the call fails.  An adapter
`Drives` a device when a message that is written is such a frame, behind the address.
-/

namespace Smbusb

open Logic

section

variable {D S : Type} (dev : BusDevice D)

/-- What becomes of a frame, for the caller and for the device. -/
def Puts (frame : List Byte) (m : D) (r : IoctlResult) (m' : D) : Prop :=
  if (dev.takeAll frame ⟨.begun, m⟩).phase = .idle then
    r.ret < 0 ∧ ¬ r.Interrupted ∧ m' = m
  else 0 ≤ r.ret ∧ m' = (dev.stop (dev.takeAll frame ⟨.begun, m⟩)).mem

/-- The adapter reaches the device: `view` is the device behind a state of the adapter. -/
structure Adapter.Drives (k : Adapter S) (dev : BusDevice D) (view : S → D) : Prop where
  /-- A message to the address, of the first bytes of a buffer. -/
  writes : ∀ s (addr : Word) len buf, toByte (addr <<< 1) = dev.addr →
    Puts dev (dev.addr :: buf.take len) (view s) (k.ioctl (.rdwr [⟨addr, 0, len, buf⟩]) s).1
      (view (k.ioctl (.rdwr [⟨addr, 0, len, buf⟩]) s).2)

/-- An adapter with nothing but the device on its bus. -/
def BusDevice.adapter (dev : BusDevice D) : Adapter D where
  ioctl req m :=
    match req with
    | .rdwr [⟨addr, _, len, buf⟩] =>
        let σ := dev.takeAll (toByte (addr <<< 1) :: buf.take len) ⟨.begun, m⟩
        if σ.phase = .idle then (⟨-1, 6⟩, m) else (⟨1, 0⟩, (dev.stop σ).mem)
    | _ => (⟨-1, 25⟩, m)

theorem BusDevice.adapter_drives (dev : BusDevice D) : dev.adapter.Drives dev id where
  writes m addr len buf haddr := by
    rw [← haddr]
    simp only [Puts, BusDevice.adapter, id]
    split
    · exact ⟨show (-1 : Int) < 0 by decide, show ¬ IoctlResult.Interrupted ⟨-1, 6⟩ by decide, rfl⟩
    · exact ⟨show (0 : Int) ≤ 1 by decide, rfl⟩

end

namespace I2cdev

variable {D S : Type} {dev : BusDevice D} {k : Adapter S} {view : S → D} {fuel : Nat}

/-- A message that is written through the driver. -/
theorem onFile_writes (hk : k.Drives dev view) (hfuel : 0 < fuel) {addr : Word}
    (haddr : toByte (addr <<< 1) = dev.addr) (len : Nat) (buf : List Byte) (c : I2cCtx S) :
    ∃ ret c', onFile k fuel (.rdwr [⟨addr, 0, len, buf⟩]) c = some (ret, c') ∧
      if (dev.takeAll (dev.addr :: buf.take len) ⟨.begun, view c.file⟩).phase = .idle then
        ret < 0 ∧ view c'.file = view c.file
      else 0 ≤ ret ∧ view c'.file =
        (dev.stop (dev.takeAll (dev.addr :: buf.take len) ⟨.begun, view c.file⟩)).mem := by
  have hputs := hk.writes c.file addr len buf haddr
  rw [Puts] at hputs
  split at hputs
  · rename_i hidle
    obtain ⟨hneg, hnot, hmem⟩ := hputs
    refine ⟨_, _, onFile_of_not_interrupted hfuel hnot, ?_⟩
    rw [if_pos hidle]
    exact ⟨hneg, hmem⟩
  · rename_i hidle
    obtain ⟨hpos, hmem⟩ := hputs
    refine ⟨_, _, onFile_of_not_interrupted hfuel (not_interrupted_of_nonneg hpos), ?_⟩
    rw [if_neg hidle]
    exact ⟨hpos, hmem⟩

/-! ## Writability -/

/-- The loop of `I2CDEV_SMBTestCommandWrite`, at the device. -/
def probeLoop (dev : BusDevice D) (outbuf : List Byte) : List Nat → Nat → D → Nat × D
  | [], result, m => (result, m)
  | len :: lens, result, m =>
      if (dev.takeAll (dev.addr :: outbuf.take len) ⟨.begun, m⟩).phase = .idle then (result, m)
      else probeLoop dev outbuf lens (result + 1)
        (dev.stop (dev.takeAll (dev.addr :: outbuf.take len) ⟨.begun, m⟩)).mem

theorem testCommandWriteLoop_drives (hk : k.Drives dev view) (hfuel : 0 < fuel) {address : UInt}
    (haddr : toByte (((address >>> 1).setWidth 16 : Word) <<< 1) = dev.addr) (outbuf : List Byte)
    (lens : List Nat) (result : Nat) (c : I2cCtx S) :
    ∃ c', testCommandWriteLoop k fuel address outbuf lens (result : Int) c =
        some (((probeLoop dev outbuf lens result (view c.file)).1 : Int), c') ∧
      view c'.file = (probeLoop dev outbuf lens result (view c.file)).2 := by
  induction lens generalizing result c with
  | nil => exact ⟨c, rfl, rfl⟩
  | cons len lens ih =>
      obtain ⟨ret, c', hcall, hput⟩ := onFile_writes hk hfuel haddr len outbuf c
      simp only [testCommandWriteLoop, bind, Option.bind, hcall, probeLoop]
      split at hput
      · rename_i hidle
        rw [if_pos hput.1, if_pos hidle]
        exact ⟨c', rfl, hput.2⟩
      · rename_i hidle
        rw [if_neg (Int.not_lt.mpr hput.1), if_neg hidle, ← hput.2]
        exact ih (result + 1) c'

/-- What it leaves behind. -/
def overwritten (dev : BusDevice D) (command : Byte) (m : D) : D :=
  match dev.format command with
  | none => m
  | some .send =>
      if dev.PecHit command then dev.write command [] (dev.write command [] m)
      else dev.write command [] m
  | some .byte =>
      if dev.PecHit command then dev.write command [3] (dev.write command [3] m)
      else dev.write command [3] m
  | some .word => dev.write command [3, 0] m
  | some .block =>
      if dev.PecHit command then dev.write command [0, 0, 0] (dev.write command [0, 0, 0] m)
      else dev.write command [0, 0, 0] m

open BusDevice in
/-- The writes behind one another are whole at the length of the format. -/
theorem probeLoop_eq (dev : BusDevice D) (command : Byte) (m : D) :
    probeLoop dev [command, 3, 0, 0, 0, 0] [1, 2, 3, 5, 6] 0 m =
      (dev.writability command, overwritten dev command m) := by
  obtain ⟨h₁, h₂, h₃⟩ := BusDevice.crc8_testFrame dev command
  have h₀ : crc8 [dev.addr, command] = 3#8 ↔ dev.PecHit command := Iff.rfl
  simp only [BusDevice.writability, BusDevice.probeTakes, overwritten]
  cases hformat : dev.format command with
  | none => simp [probeLoop, takeAll, take_addr, take_cmd, hformat, score, testFrame]
  | some f =>
      by_cases hhit : dev.PecHit command
      · rw [← h₀] at hhit
        have hhit₁ := h₁.mpr (h₀.mp hhit)
        have hhit₂ := h₂.mpr (h₀.mp hhit)
        have hhit₃ := h₃.mpr (h₀.mp hhit)
        cases f with
        | send => simp [probeLoop, takeAll, take_addr, take_cmd, hformat, take_writing,
            take_checked, Format.more, Format.decode, PecHit, hhit, stop, score, testFrame]
        | byte => simp [probeLoop, takeAll, take_addr, take_cmd, hformat, take_writing,
            take_checked, take_idle, Format.more, Format.decode, PecHit, hhit, hhit₁, stop, score,
            testFrame]
        | word => simp [probeLoop, takeAll, take_addr, take_cmd, hformat, take_writing,
            take_checked, Format.more, Format.decode, PecHit, hhit, hhit₂, stop, score, testFrame]
        | block => simp [probeLoop, takeAll, take_addr, take_cmd, hformat, take_writing,
            Format.more, Format.decode, PecHit, hhit, hhit₃, stop, score, testFrame]
      · have hno : ¬ 3#8 = crc8 [dev.addr, command] := fun h => hhit h.symm
        have hno₁ : ¬ 0#8 = crc8 [dev.addr, command, 3#8] := fun h => hhit (h₁.mp h.symm)
        have hno₂ : ¬ 0#8 = crc8 [dev.addr, command, 3#8, 0#8] := fun h => hhit (h₂.mp h.symm)
        have hno₃ : ¬ 0#8 = crc8 [dev.addr, command, 3#8, 0#8, 0#8, 0#8] :=
          fun h => hhit (h₃.mp h.symm)
        cases f with
        | send => simp [probeLoop, takeAll, take_addr, take_cmd, hformat, take_writing,
            Format.more, Format.decode, hhit, hno, stop, score, testFrame]
        | byte => simp [probeLoop, takeAll, take_addr, take_cmd, hformat, take_writing,
            Format.more, Format.decode, hhit, hno₁, stop, score, testFrame]
        | word => simp [probeLoop, takeAll, take_addr, take_cmd, hformat, take_writing,
            take_idle, Format.more, Format.decode, hhit, hno₂, stop, score, testFrame]
        | block => simp [probeLoop, takeAll, take_addr, take_cmd, hformat, take_writing,
            Format.more, Format.decode, hhit, hno₃, stop, score, testFrame]

/-- The probe of the I2CDEV driver gives the reply of the other one, and overwrites the command. -/
theorem testCommandWrite_drives (hk : k.Drives dev view) (hfuel : 0 < fuel) {address : UInt}
    (haddr : toByte (((address >>> 1).setWidth 16 : Word) <<< 1) = dev.addr) (command : Byte)
    (c : I2cCtx S) :
    ∃ c', testCommandWrite k fuel address command c =
        some ((dev.writability command : Int), c') ∧
      view c'.file = overwritten dev command (view c.file) := by
  obtain ⟨c', hcall, hmem⟩ := testCommandWriteLoop_drives hk hfuel haddr
    [command, 3, 0, 0, 0, 0] [1, 2, 3, 5, 6] 0 c
  rw [probeLoop_eq] at hcall hmem
  exact ⟨c', hcall, hmem⟩

end I2cdev

end Smbusb
