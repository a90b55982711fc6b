import Smbusb.Host.Fx2lp

/-!
# The library

`smbusb.c`: the functions a program calls.  Each tests `s_drv` and passes its arguments
on to the driver there.

The drivers are tables of functions over any states `W`, `SmbDriver W`.  The table is an
argument of every call, so that a run may give each call its own, and a statement about
all of them is a statement about whatever the drivers do.  `Library.reached` counts the
calls of driver functions; no function reads it.

A buffer the caller gives is a list of bytes when it is read and a memory when it is
written to, which comes back with the result.
-/

namespace Smbusb

open Logic

/-! ## Drivers -/

/-- The drivers of the library. -/
inductive DriverId where
  | fx2lp
  | i2cdev
deriving DecidableEq, Repr

/-- `struct SMBMsg`. -/
structure SmbMsg where
  addr : Word
  flags : Word
  len : Word
  buf : Mem Byte

/-- `struct SMBDriver`.  An open that never returns has no result. -/
structure SmbDriver (W : Type) where
  smbOpen : List Char → W → Option (Int × W)
  smbClose : W → W
  readByte : UInt → Byte → W → Int × W
  sendByte : UInt → Byte → W → Int × W
  writeByte : UInt → Byte → Byte → W → Int × W
  readWord : UInt → Byte → W → Int × W
  writeWord : UInt → Byte → UInt → W → Int × W
  readBlock : UInt → Byte → Mem Byte → W → (Int × Mem Byte) × W
  writeBlock : UInt → Byte → List Byte → Byte → W → Int × W
  getLastReadPecFail : W → Byte × W
  enablePec : Byte → W → Unit × W
  write : Byte → Byte → Byte → List Byte → W → Int × W
  read : UInt → Mem Byte → Byte → W → (Int × Mem Byte) × W
  transfer : List SmbMsg → W → (Int × List SmbMsg) × W
  getArbPec : W → UInt × W
  testAddressAck : UInt → W → Int × W
  testCommandAck : UInt → Byte → W → Int × W
  testCommandWrite : UInt → Byte → W → Int × W
  setDebugLogFunc : Nat → W → Unit × W

/-- The drivers that were built: `USE_FX2LP_PROGRAMMER` and `USE_I2CDEV_PROGRAMMER`. -/
structure Build where
  fx2lp : Bool
  i2cdev : Bool

/-- The state of the library. -/
structure Library (W : Type) where
  /-- `s_drv`. -/
  sDrv : Option DriverId
  /-- What the drivers keep, and what is outside. -/
  world : W
  /-- The calls of driver functions so far. -/
  reached : Nat
deriving DecidableEq

namespace Library

variable {W A : Type}

/-! ## Open and close -/

/-- The driver and the `device_ops` of a URI. -/
def select (build : Build) (uri : List Char) : Option (DriverId × List Char) :=
  if build.fx2lp ∧ "fx2lp://".toList <+: uri then some (.fx2lp, uri.drop 8)
  else if build.i2cdev ∧ "i2cdev://".toList <+: uri then some (.i2cdev, uri.drop 9)
  else if build.i2cdev ∧ "i2c://".toList <+: uri then some (.i2cdev, uri.drop 6)
  else none

section

variable (drivers : DriverId → SmbDriver W)

/-- `SMBOpenDevice`. -/
def openDevice (build : Build) (uri : List Char) (l : Library W) : Option (Int × Library W) :=
  if l.sDrv.isSome then some (-1, l)
  else
    match select build uri with
    | none => some (-1, l)
    | some (drv, deviceOps) =>
        ((drivers drv).smbOpen deviceOps l.world).map fun (status, world) =>
          (status, ⟨if status < 0 then none else some drv, world, l.reached + 1⟩)

/-- `SMBCloseDevice`. -/
def closeDevice (l : Library W) : Library W :=
  match l.sDrv with
  | none => l
  | some drv => { l with world := (drivers drv).smbClose l.world, reached := l.reached + 1 }

/-! ## Input and output -/

/-- `!s_drv ? noDriver : s_drv->f(...)`. -/
def dispatch (noDriver : A) (f : SmbDriver W → W → A × W) (l : Library W) : A × Library W :=
  match l.sDrv with
  | none => (noDriver, l)
  | some drv =>
      let (a, world) := f (drivers drv) l.world
      (a, { l with world, reached := l.reached + 1 })

/-- `SMBSendByte`. -/
def sendByte (address : UInt) (command : Byte) : Library W → Int × Library W :=
  dispatch drivers (-1) fun drv => drv.sendByte address command

/-- `SMBReadByte`. -/
def readByte (address : UInt) (command : Byte) : Library W → Int × Library W :=
  dispatch drivers (-1) fun drv => drv.readByte address command

/-- `SMBWriteByte`. -/
def writeByte (address : UInt) (command data : Byte) : Library W → Int × Library W :=
  dispatch drivers (-1) fun drv => drv.writeByte address command data

/-- `SMBReadWord`. -/
def readWord (address : UInt) (command : Byte) : Library W → Int × Library W :=
  dispatch drivers (-1) fun drv => drv.readWord address command

/-- `SMBWriteWord`. -/
def writeWord (address : UInt) (command : Byte) (data : UInt) : Library W → Int × Library W :=
  dispatch drivers (-1) fun drv => drv.writeWord address command data

/-- `SMBReadBlock`. -/
def readBlock (address : UInt) (command : Byte) (data : Mem Byte) :
    Library W → (Int × Mem Byte) × Library W :=
  dispatch drivers (-1, data) fun drv => drv.readBlock address command data

/-- `SMBWriteBlock`. -/
def writeBlock (address : UInt) (command : Byte) (data : List Byte) (len : Byte) :
    Library W → Int × Library W :=
  dispatch drivers (-1) fun drv => drv.writeBlock address command data len

/-- `SMBEnablePEC`. -/
def enablePec (state : Byte) : Library W → Unit × Library W :=
  dispatch drivers () fun drv => drv.enablePec state

/-- `SMBGetLastReadPECFail`. -/
def getLastReadPecFail : Library W → Byte × Library W :=
  dispatch drivers 0x00 fun drv => drv.getLastReadPecFail

/-- `SMBWrite`; `len` is the length of `data`. -/
def write (start restart stop : Byte) (data : List Byte) : Library W → Int × Library W :=
  dispatch drivers (-1) fun drv => drv.write start restart stop data

/-- `SMBRead`. -/
def read (len : UInt) (data : Mem Byte) (lastRead : Byte) :
    Library W → (Int × Mem Byte) × Library W :=
  dispatch drivers (-1, data) fun drv => drv.read len data lastRead

/-- `SMBGetArbPEC`. -/
def getArbPec : Library W → UInt × Library W :=
  dispatch drivers 0 fun drv => drv.getArbPec

/-- `SMBTestAddressACK`. -/
def testAddressAck (address : UInt) : Library W → Int × Library W :=
  dispatch drivers (-1) fun drv => drv.testAddressAck address

/-- `SMBTestCommandACK`. -/
def testCommandAck (address : UInt) (command : Byte) : Library W → Int × Library W :=
  dispatch drivers (-1) fun drv => drv.testCommandAck address command

/-- `SMBTestCommandWrite`. -/
def testCommandWrite (address : UInt) (command : Byte) : Library W → Int × Library W :=
  dispatch drivers (-1) fun drv => drv.testCommandWrite address command

/-- `SMBSetDebugLogFunc`. -/
def setDebugLogFunc (logFunc : Nat) : Library W → Unit × Library W :=
  dispatch drivers () fun drv => drv.setDebugLogFunc logFunc

/-- `SMBTransfer`; `count` is the length of `msgs`. -/
def transfer (msgs : List SmbMsg) : Library W → (Int × List SmbMsg) × Library W :=
  dispatch drivers (-1, msgs) fun drv => drv.transfer msgs

end

end Library

/-! ## Calls of the I/O functions -/

/-- A call of an I/O function. -/
inductive IoCall where
  | sendByte (address : UInt) (command : Byte)
  | readByte (address : UInt) (command : Byte)
  | writeByte (address : UInt) (command data : Byte)
  | readWord (address : UInt) (command : Byte)
  | writeWord (address : UInt) (command : Byte) (data : UInt)
  | readBlock (address : UInt) (command : Byte) (data : Mem Byte)
  | writeBlock (address : UInt) (command : Byte) (data : List Byte) (len : Byte)
  | enablePec (state : Byte)
  | getLastReadPecFail
  | write (start restart stop : Byte) (data : List Byte)
  | read (len : UInt) (data : Mem Byte) (lastRead : Byte)
  | getArbPec
  | testAddressAck (address : UInt)
  | testCommandAck (address : UInt) (command : Byte)
  | testCommandWrite (address : UInt) (command : Byte)
  | setDebugLogFunc (logFunc : Nat)
  | transfer (msgs : List SmbMsg)

namespace IoCall

/-- What a call gives back. -/
def Result : IoCall → Type
  | readBlock .. | read .. => Int × Mem Byte
  | transfer .. => Int × List SmbMsg
  | enablePec .. | setDebugLogFunc .. => Unit
  | getLastReadPecFail => Byte
  | getArbPec => UInt
  | _ => Int

/-- What a call gives back without a driver: -1 or 0, and the buffers as they were. -/
def noDriver : (c : IoCall) → c.Result
  | readBlock _ _ data | read _ data _ => (-1, data)
  | transfer msgs => (-1, msgs)
  | enablePec .. | setDebugLogFunc .. => ()
  | getLastReadPecFail => (0 : Byte)
  | getArbPec => (0 : UInt)
  | sendByte .. | readByte .. | writeByte .. | readWord .. | writeWord .. | writeBlock ..
  | write .. | testAddressAck .. | testCommandAck .. | testCommandWrite .. => (-1 : Int)

variable {W : Type}

/-- The function of the driver. -/
def entry : (c : IoCall) → SmbDriver W → W → c.Result × W
  | sendByte address command, drv => drv.sendByte address command
  | readByte address command, drv => drv.readByte address command
  | writeByte address command data, drv => drv.writeByte address command data
  | readWord address command, drv => drv.readWord address command
  | writeWord address command data, drv => drv.writeWord address command data
  | readBlock address command data, drv => drv.readBlock address command data
  | writeBlock address command data len, drv => drv.writeBlock address command data len
  | enablePec state, drv => drv.enablePec state
  | getLastReadPecFail, drv => drv.getLastReadPecFail
  | write start restart stop data, drv => drv.write start restart stop data
  | read len data lastRead, drv => drv.read len data lastRead
  | getArbPec, drv => drv.getArbPec
  | testAddressAck address, drv => drv.testAddressAck address
  | testCommandAck address command, drv => drv.testCommandAck address command
  | testCommandWrite address command, drv => drv.testCommandWrite address command
  | setDebugLogFunc logFunc, drv => drv.setDebugLogFunc logFunc
  | transfer msgs, drv => drv.transfer msgs

variable (drivers : DriverId → SmbDriver W)

/-- The function of the library. -/
def run : (c : IoCall) → Library W → c.Result × Library W
  | sendByte address command => Library.sendByte drivers address command
  | readByte address command => Library.readByte drivers address command
  | writeByte address command data => Library.writeByte drivers address command data
  | readWord address command => Library.readWord drivers address command
  | writeWord address command data => Library.writeWord drivers address command data
  | readBlock address command data => Library.readBlock drivers address command data
  | writeBlock address command data len => Library.writeBlock drivers address command data len
  | enablePec state => Library.enablePec drivers state
  | getLastReadPecFail => Library.getLastReadPecFail drivers
  | write start restart stop data => Library.write drivers start restart stop data
  | read len data lastRead => Library.read drivers len data lastRead
  | getArbPec => Library.getArbPec drivers
  | testAddressAck address => Library.testAddressAck drivers address
  | testCommandAck address command => Library.testCommandAck drivers address command
  | testCommandWrite address command => Library.testCommandWrite drivers address command
  | setDebugLogFunc logFunc => Library.setDebugLogFunc drivers logFunc
  | transfer msgs => Library.transfer drivers msgs

end IoCall

section

variable {W A : Type} (drivers : DriverId → SmbDriver W) {l : Library W}

theorem Library.dispatch_none (noDriver : A) (f : SmbDriver W → W → A × W) (h : l.sDrv = none) :
    l.dispatch drivers noDriver f = (noDriver, l) := by
  simp only [Library.dispatch, h]

theorem Library.dispatch_sDrv (noDriver : A) (f : SmbDriver W → W → A × W) :
    (l.dispatch drivers noDriver f).2.sDrv = l.sDrv := by
  unfold Library.dispatch
  split <;> simp_all

/-- Every I/O function does the same, with its value and the function of the driver. -/
theorem IoCall.run_eq (c : IoCall) : c.run drivers l = l.dispatch drivers c.noDriver c.entry := by
  cases c <;> rfl

/-- Without a driver an I/O function gives its value back, and that is all. -/
theorem IoCall.run_none (c : IoCall) (h : l.sDrv = none) : c.run drivers l = (c.noDriver, l) := by
  rw [IoCall.run_eq, Library.dispatch_none drivers _ _ h]

/-- An I/O function leaves the driver where it is. -/
theorem IoCall.run_sDrv (c : IoCall) : (c.run drivers l).2.sDrv = l.sDrv := by
  rw [IoCall.run_eq, Library.dispatch_sDrv]

end

end Smbusb
