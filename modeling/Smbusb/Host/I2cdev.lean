import Smbusb.Host.Fx2lp

/-!
# The I2CDEV driver

The functions of `smbusb-i2cdev.c` that write or probe, over any adapter.

An `Adapter` is what `ioctl` does on the open device file: the kernel, its bus driver and
the bus.  `s_ctx` is the record `I2cCtx`.  Its file descriptor is the adapter itself.
`xioctl` repeats a call that was interrupted, so it has fuel, and the functions over it
have a result only if the interruptions end.
-/

namespace Smbusb

/-! ## The kernel's side -/

/-- `struct i2c_msg`. -/
structure I2cMsg where
  addr : Word
  flags : Word
  len : Nat
  buf : List Byte
deriving DecidableEq, Repr

/-- The transfers of `I2C_SMBUS` the driver asks for without a data block. -/
inductive SmbusSize where
  /-- `I2C_SMBUS_QUICK`. -/
  | quick
  /-- `I2C_SMBUS_BYTE`. -/
  | byte
deriving DecidableEq, Repr

/-- The requests of the driver. -/
inductive IoctlRequest where
  /-- `I2C_SLAVE`. -/
  | slave (addr : Word)
  /-- `I2C_PEC`. -/
  | pec (select : Bool)
  /-- `I2C_SMBUS`: direction, command and size. -/
  | smbus (readWrite command : Byte) (size : SmbusSize)
  /-- `I2C_RDWR`. -/
  | rdwr (msgs : List I2cMsg)
deriving DecidableEq, Repr

/-- What `ioctl` returns, and `errno` after it. -/
structure IoctlResult where
  ret : Int
  errno : Nat
deriving DecidableEq, Repr

def eintr : Nat := 4
def eagain : Nat := 11

/-- `I2C_SMBUS_WRITE`. -/
def i2cSmbusWrite : Byte := 0

/-- What `ioctl` does on the open device file. -/
structure Adapter (S : Type) where
  ioctl : IoctlRequest → S → IoctlResult × S

/-- A call that `xioctl` repeats. -/
def IoctlResult.Interrupted (r : IoctlResult) : Prop :=
  r.ret < 0 ∧ (r.errno = eagain ∨ r.errno = eintr)

instance (r : IoctlResult) : Decidable r.Interrupted :=
  inferInstanceAs (Decidable (_ ∧ _))

/-! ## The driver -/

/-- `s_ctx`, and what is behind its file descriptor. -/
structure I2cCtx (S : Type) where
  pecEnabled : Bool
  swPec : Bool
  file : S
deriving DecidableEq, Repr

namespace I2cdev

variable {S : Type} (k : Adapter S)

/-- `xioctl`. -/
def xioctl : Nat → IoctlRequest → S → Option (Int × S)
  | 0, _, _ => none
  | fuel + 1, req, s =>
      let (r, s) := k.ioctl req s
      if r.Interrupted then xioctl fuel req s else some (r.ret, s)

/-- `xioctl` on the file of the driver. -/
def onFile (fuel : Nat) (req : IoctlRequest) (c : I2cCtx S) : Option (Int × I2cCtx S) :=
  (xioctl k fuel req c.file).map fun (ret, file) => (ret, { c with file := file })

/-- `smbus_access`, without data. -/
def smbusAccess (fuel : Nat) (readWrite command : Byte) (size : SmbusSize) (c : I2cCtx S) :
    Option (Int × I2cCtx S) :=
  onFile k fuel (.smbus readWrite command size) c

/-- `smbus_pec`. -/
def smbusPec (fuel : Nat) (enable : Bool) (c : I2cCtx S) : Option (Int × I2cCtx S) := do
  let c := if c.swPec then { c with pecEnabled := enable } else c
  let (ret, c) ← onFile k fuel (.pec enable) c
  return (if ret ≠ 0 then -1 else 0, c)

/-- `smbus_address`; `address` is a `uint16_t`. -/
def smbusAddress (fuel : Nat) (address : Word) (c : I2cCtx S) : Option (Int × I2cCtx S) :=
  onFile k fuel (.slave (address >>> 1)) c

/-- `smbus_write_quick`. -/
def smbusWriteQuick (fuel : Nat) (value : Byte) (c : I2cCtx S) : Option (Int × I2cCtx S) :=
  smbusAccess k fuel value 0 .quick c

/-- `smbus_write_byte`. -/
def smbusWriteByte (fuel : Nat) (value : Byte) (c : I2cCtx S) : Option (Int × I2cCtx S) :=
  smbusAccess k fuel i2cSmbusWrite value .byte c

/-- `smbus_write_block_data_relax`; `buffer` has room for 259 bytes. -/
def smbusWriteBlockDataRelax (fuel : Nat) (address command length : Byte) (values : List Byte)
    (c : I2cCtx S) : Option (Int × I2cCtx S) := do
  let buffer := command :: length :: values.take length.toNat
  -- The length leaves the PEC out ("TBD: PEC checks").
  let msg : I2cMsg := ⟨(address >>> 1).setWidth 16, 0, length.toNat + 2, buffer⟩
  let (sts, c) ← onFile k fuel (.rdwr [msg]) c
  return (if sts < 0 then -1 else 0, c)

/-- `I2CDEV_SMBWriteBlock`; `address` is cut to a byte. -/
def writeBlock (fuel : Nat) (address : UInt) (command : Byte) (data : List Byte) (len : Byte)
    (c : I2cCtx S) : Option (Int × I2cCtx S) :=
  smbusWriteBlockDataRelax k fuel (address.setWidth 8) command len data c

/-- `I2CDEV_SMBEnablePEC`. -/
def enablePec (fuel : Nat) (state : Byte) (c : I2cCtx S) : Option (I2cCtx S) := do
  let (_, c) ← smbusPec k fuel (decide (state ≠ 0)) c
  return c

/-- `I2CDEV_SMBTestAddressACK`; `address` is cut to 16 bits. -/
def testAddressAck (fuel : Nat) (address : UInt) (c : I2cCtx S) : Option (Int × I2cCtx S) := do
  let (ret, c) ← smbusAddress k fuel (address.setWidth 16) c
  if ret ≠ 0 then return (ret, c)
  smbusWriteQuick k fuel 0 c

/-- `I2CDEV_SMBTestCommandACK`. -/
def testCommandAck (fuel : Nat) (address : UInt) (command : Byte) (c : I2cCtx S) :
    Option (Int × I2cCtx S) := do
  let (ret, c) ← smbusAddress k fuel (address.setWidth 16) c
  if ret ≠ 0 then return (ret, c)
  smbusWriteByte k fuel command c

/-- The loop of `I2CDEV_SMBTestCommandWrite`: every write is one byte or two longer. -/
def testCommandWriteLoop (fuel : Nat) (address : UInt) (outbuf : List Byte) :
    List Nat → Int → I2cCtx S → Option (Int × I2cCtx S)
  | [], result, c => some (result, c)
  | len :: sizeChecks, result, c => do
      let msg : I2cMsg := ⟨(address >>> 1).setWidth 16, 0, len, outbuf⟩
      let (sts, c) ← onFile k fuel (.rdwr [msg]) c
      if sts < 0 then return (result, c)
      testCommandWriteLoop fuel address outbuf sizeChecks (result + 1) c

/-- `I2CDEV_SMBTestCommandWrite`. -/
def testCommandWrite (fuel : Nat) (address : UInt) (command : Byte) (c : I2cCtx S) :
    Option (Int × I2cCtx S) :=
  testCommandWriteLoop k fuel address [command, 3, 0, 0, 0, 0] [1, 2, 3, 5, 6] 0 c

/-! ## Calls that are not interrupted -/

section Calls

variable {k} {fuel : Nat} {req : IoctlRequest}

theorem xioctl_of_not_interrupted {s : S} (hfuel : 0 < fuel)
    (h : ¬ (k.ioctl req s).1.Interrupted) :
    xioctl k fuel req s = some ((k.ioctl req s).1.ret, (k.ioctl req s).2) := by
  cases fuel with
  | zero => exact absurd hfuel (Nat.not_lt_zero 0)
  | succ fuel => simp only [xioctl, if_neg h]

theorem onFile_of_not_interrupted {c : I2cCtx S} (hfuel : 0 < fuel)
    (h : ¬ (k.ioctl req c.file).1.Interrupted) :
    onFile k fuel req c =
      some ((k.ioctl req c.file).1.ret, { c with file := (k.ioctl req c.file).2 }) := by
  rw [onFile, xioctl_of_not_interrupted hfuel h]
  rfl

/-- A call that succeeds was not interrupted. -/
theorem not_interrupted_of_nonneg {r : IoctlResult} (h : 0 ≤ r.ret) : ¬ r.Interrupted :=
  fun hr => absurd hr.1 (Int.not_lt.mpr h)

end Calls

end I2cdev

end Smbusb
