import Smbusb.Host.BlockReceive
import Smbusb.Host.DeviceRuns

/-!
# Calls of the I2CDEV driver

The functions of `smbusb-i2cdev.c` that read and write a byte or a word, and those that the driver
does not have.  The others are with the claims about them (`I2cdev`, `BlockReceive`).

*Data.*  A `DataAdapter` does the transfers of `I2C_SMBUS` with a data block as well.  The block is
the union `i2c_smbus_data`, of which these transfers use `word`, or its low byte `byte`.

*Calls.*  `I2cdev.transaction` and `DeviceCall.onFile` say what the caller gets of the calls that a
program can make with either driver, as `Transaction.run` and `DeviceCall.run` do for the other one.
-/

namespace Smbusb

/-- The transfers of `I2C_SMBUS` the driver asks for with a data block. -/
inductive DataSize where
  /-- `I2C_SMBUS_BYTE_DATA`. -/
  | byteData
  /-- `I2C_SMBUS_WORD_DATA`. -/
  | wordData
deriving DecidableEq, Repr

/-- An adapter that transfers data. -/
structure DataAdapter (S : Type) extends ReceivingAdapter S where
  /-- `I2C_SMBUS` with the direction, the command, the size and the data block, which it may
  change. -/
  access : Byte → Byte → DataSize → Word → S → IoctlResult × Word × S

/-- `I2C_SMBUS_READ`. -/
def i2cSmbusRead : Byte := 1

namespace I2cdev

variable {S : Type} (k : DataAdapter S)

/-- `xioctl`, for a transfer with a data block. -/
def xioctlData : Nat → Byte → Byte → DataSize → Word → S → Option ((Int × Word) × S)
  | 0, _, _, _, _, _ => none
  | fuel + 1, readWrite, command, size, data, s =>
      let (r, data, s) := k.access readWrite command size data s
      if r.Interrupted then xioctlData fuel readWrite command size data s
      else some ((r.ret, data), s)

/-- `smbus_access`, with data. -/
def smbusAccessData (fuel : Nat) (readWrite command : Byte) (size : DataSize) (data : Word)
    (c : I2cCtx S) : Option ((Int × Word) × I2cCtx S) :=
  (xioctlData k fuel readWrite command size data c.file).map fun (r, file) =>
    (r, { c with file := file })

/-- `smbus_read_byte_data`; `junk` is what the block holds before. -/
def smbusReadByteData (fuel : Nat) (command : Byte) (junk : Word) (c : I2cCtx S) :
    Option (Int × I2cCtx S) := do
  let ((err, data), c) ← smbusAccessData k fuel i2cSmbusRead command .byteData junk c
  if err < 0 then return (err, c)
  return (((0xFF &&& data).toNat : Int), c)

/-- `smbus_write_byte_data`. -/
def smbusWriteByteData (fuel : Nat) (command value : Byte) (c : I2cCtx S) :
    Option (Int × I2cCtx S) := do
  let ((ret, _), c) ←
    smbusAccessData k fuel i2cSmbusWrite command .byteData (value.setWidth 16) c
  return (ret, c)

/-- `smbus_read_word_data`. -/
def smbusReadWordData (fuel : Nat) (command : Byte) (junk : Word) (c : I2cCtx S) :
    Option (Int × I2cCtx S) := do
  let ((err, data), c) ← smbusAccessData k fuel i2cSmbusRead command .wordData junk c
  if err < 0 then return (err, c)
  return (((0xFFFF &&& data).toNat : Int), c)

/-- `smbus_write_word_data`. -/
def smbusWriteWordData (fuel : Nat) (command : Byte) (value : Word) (c : I2cCtx S) :
    Option (Int × I2cCtx S) := do
  let ((ret, _), c) ← smbusAccessData k fuel i2cSmbusWrite command .wordData value c
  return (ret, c)

/-- `I2CDEV_SMBReadByte`. -/
def readByte (fuel : Nat) (address : UInt) (command : Byte) (junk : Word) (c : I2cCtx S) :
    Option (Int × I2cCtx S) := do
  let (ret, c) ← smbusAddress k.toAdapter fuel (address.setWidth 16) c
  if ret < 0 then return (ret, c)
  smbusReadByteData k fuel command junk c

/-- `I2CDEV_SMBSendByte`. -/
def sendByte (fuel : Nat) (address : UInt) (command : Byte) (c : I2cCtx S) :
    Option (Int × I2cCtx S) := do
  let (ret, c) ← smbusAddress k.toAdapter fuel (address.setWidth 16) c
  if ret < 0 then return (ret, c)
  smbusWriteByte k.toAdapter fuel command c

/-- `I2CDEV_SMBWriteByte`. -/
def writeByte (fuel : Nat) (address : UInt) (command data : Byte) (c : I2cCtx S) :
    Option (Int × I2cCtx S) := do
  let (ret, c) ← smbusAddress k.toAdapter fuel (address.setWidth 16) c
  if ret < 0 then return (ret, c)
  smbusWriteByteData k fuel command data c

/-- `I2CDEV_SMBReadWord`. -/
def readWord (fuel : Nat) (address : UInt) (command : Byte) (junk : Word) (c : I2cCtx S) :
    Option (Int × I2cCtx S) := do
  let (ret, c) ← smbusAddress k.toAdapter fuel (address.setWidth 16) c
  if ret < 0 then return (ret, c)
  smbusReadWordData k fuel command junk c

/-- `I2CDEV_SMBWriteWord`; the data is cut to 16 bits. -/
def writeWord (fuel : Nat) (address : UInt) (command : Byte) (data : UInt) (c : I2cCtx S) :
    Option (Int × I2cCtx S) := do
  let (ret, c) ← smbusAddress k.toAdapter fuel (address.setWidth 16) c
  if ret < 0 then return (ret, c)
  smbusWriteWordData k fuel command (data.setWidth 16) c

/-- `I2CDEV_SMBGetLastReadPECFail`. -/
def getLastReadPecFail : Byte := 0

/-! ## Calls of a program -/

/-- What the caller of a transaction gets.  The data blocks of the reads hold zeros before. -/
def transaction (fuel : Nat) (address : UInt) (c : I2cCtx S) : Transaction →
    Option (Option (List Byte) × I2cCtx S)
  | .sendByte command => do
      let (status, c) ← sendByte k fuel address command c
      return (outcome status [], c)
  | .writeByte command data => do
      let (status, c) ← writeByte k fuel address command data c
      return (outcome status [], c)
  | .writeWord command data => do
      let (status, c) ← writeWord k fuel address command data c
      return (outcome status [], c)
  | .writeBlock command data => do
      let (status, c) ←
        writeBlock k.toAdapter fuel address command data (BitVec.ofNat 8 data.length) c
      return (outcome status [], c)
  | .readByte command => do
      let (status, c) ← readByte k fuel address command 0 c
      return (outcome status [BitVec.ofInt 8 status], c)
  | .readWord command => do
      let (status, c) ← readWord k fuel address command 0 c
      return (outcome status (wordBytes (BitVec.ofInt 32 status)), c)
  | .readBlock command => do
      let ((status, data), c) ←
        readBlock k.toReceivingAdapter fuel address command (fun _ => 0) c
      return (outcome status (data.read 0 status.toNat), c)

end I2cdev

/-- What the caller gets through the I2CDEV driver.  A probe gives no data. -/
def DeviceCall.onFile {S : Type} (k : DataAdapter S) (fuel : Nat) (c : I2cCtx S) : DeviceCall →
    Option (Option (List Byte) × I2cCtx S)
  | transaction address t => I2cdev.transaction k fuel address c t
  | testAddressAck address => do
      let (status, c) ← I2cdev.testAddressAck k.toAdapter fuel address c
      return (outcome status [], c)
  | testCommandAck address command => do
      let (status, c) ← I2cdev.testCommandAck k.toAdapter fuel address command c
      return (outcome status [], c)
  | enablePec state => do
      let c ← I2cdev.enablePec k.toAdapter fuel state c
      return (some [], c)
  | getLastReadPecFail => some (some [I2cdev.getLastReadPecFail], c)

end Smbusb
