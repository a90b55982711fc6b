import Smbusb.Host.Usb

/-!
# The FX2LP driver

The I/O functions of `smbusb-fx2lp.c`, over any device.

`address` is an `unsigned int` and goes into the 16-bit `wValue`.  Lengths, offsets
and counters are natural numbers: the `int`s of the source hold every length below
2 GiB.  A buffer the driver writes to is a memory from the caller's pointer on.  A
local the source does not initialise is an argument.
-/

namespace Smbusb

open Logic

/-- An `unsigned int`. -/
abbrev UInt := BitVec 32

namespace Fx2lp

variable {S : Type} (d : Device S)

/-- The setup packet of a request with an address and a command. -/
def setupOf (address : UInt) (command : Byte) : Setup :=
  ⟨address.setWidth 16, command.setWidth 16⟩

/-- Bytes stored into an `int` that was 0, least significant first. -/
def leInt (bs : List Byte) : Int := (bs.foldr (fun b n => b.toNat + 256 * n) 0 : Nat)

/-! ## Byte and word functions -/

/-- `FX2LP_SMBReadByte`. -/
def readByte (address : UInt) (command : Byte) (s : S) : Int × S :=
  let ((status, ret), s) := d.inp smbReadByte (setupOf address command) 1 s
  (if status = 1 then leInt ret else status, s)

/-- `FX2LP_SMBSendByte`. -/
def sendByte (address : UInt) (command : Byte) (s : S) : Int × S :=
  d.out smbSendByte (setupOf address command) [0] s

/-- `FX2LP_SMBWriteByte`. -/
def writeByte (address : UInt) (command data : Byte) (s : S) : Int × S :=
  let (status, s) := d.out smbWriteByte (setupOf address command) [data] s
  (if status = 1 then 0 else status, s)

/-- `FX2LP_SMBReadWord`. -/
def readWord (address : UInt) (command : Byte) (s : S) : Int × S :=
  let ((status, ret), s) := d.inp smbReadWord (setupOf address command) 2 s
  (if status = 2 then leInt ret else status, s)

/-- `FX2LP_SMBWriteWord`. -/
def writeWord (address : UInt) (command : Byte) (data : UInt) (s : S) : Int × S :=
  let (status, s) := d.out smbWriteWord (setupOf address command)
    [data.setWidth 8, (data >>> 8).setWidth 8] s
  (if status = 2 then 0 else status, s)

/-! ## Block functions -/

/-- The loop of `FX2LP_SMBReadBlock`.  The result is `none` when the fuel ends before
the loop; the state is the one reached so far. -/
def readBlockRest (setup : Setup) (total : Nat) :
    Nat → Nat → Mem Byte → S → Option (Int × Mem Byte) × S
  | 0, _, _, s => (none, s)
  | fuel + 1, rcvd, data, s =>
      if rcvd < total then
        let ((status, tmp), s) := d.inp smbReadBlock setup 64 s
        if status < 0 then (some (status, data), s)
        else
          readBlockRest setup total fuel (rcvd + status.toNat)
            (data.write rcvd (tmp.take status.toNat)) s
      else (some (total, data), s)

/-- `FX2LP_SMBReadBlock`, with fuel for its loop. -/
def readBlock (fuel : Nat) (address : UInt) (command : Byte) (data : Mem Byte) (s : S) :
    Option (Int × Mem Byte) × S :=
  let ((status, tmp), s) := d.inp smbReadBlock (setupOf address command) 64 s
  if status ≤ 0 then (some (status, data), s)
  else
    let total := (tmp.headD 0).toNat
    let rcvd := status.toNat - 1
    readBlockRest d (setupOf address command) total fuel rcvd
      (data.write 0 ((tmp.drop 1).take rcvd)) s

/-- The loop of `FX2LP_SMBWriteBlock` over `left` more whole chunks.  An error is
the status the function returns. -/
def writeBlockWhole (setup : Setup) (tmp : List Byte) : Nat → Nat → S → Except Int Unit × S
  | 0, _, s => (.ok (), s)
  | left + 1, i, s =>
      let (status, s) := d.out smbWriteBlock setup ((tmp.drop (i * 64)).take 64) s
      if status ≠ 64 then (.error status, s) else writeBlockWhole setup tmp left (i + 1) s

/-- `FX2LP_SMBWriteBlock`. -/
def writeBlock (address : UInt) (command : Byte) (data : List Byte) (len : Byte) (s : S) :
    Int × S :=
  let wholeWrites := (len.toNat + 1) / 64
  let remainder := len.toNat + 1 - wholeWrites * 64
  let tmp := len :: data.take len.toNat
  match writeBlockWhole d (setupOf address command) tmp wholeWrites 0 s with
  | (.error status, s) => (status, s)
  | (.ok (), s) =>
      if 0 < remainder then
        let (status, s) := d.out smbWriteBlock (setupOf address command)
          ((tmp.drop (wholeWrites * 64)).take remainder) s
        if status ≠ remainder then (status, s) else (len.toNat, s)
      else (len.toNat, s)

/-! ## PEC functions -/

/-- `FX2LP_SMBGetLastReadPECFail`. -/
def getLastReadPecFail (s : S) : Byte × S :=
  let ((status, pecFailed), s) := d.inp smbGetClearPecFail ⟨1, 0⟩ 1 s
  (if status = 1 then pecFailed.headD 0 else BitVec.ofInt 8 status, s)

/-- `FX2LP_SMBEnablePEC`. -/
def enablePec (state : Byte) (s : S) : S :=
  (d.out smbEnablePec ⟨if 0 < state then 1 else 0, 0⟩ [] s).2

/-- A `short`, on a little-endian host. -/
def leShort (bs : List Byte) : BitVec 16 :=
  (bs.getD 1 0) ++ (bs.getD 0 0)

/-- `FX2LP_SMBGetArbPEC`: a `short` returned as an `unsigned int`. -/
def getArbPec (s : S) : UInt × S :=
  let ((status, pecs), s) := d.inp smbGetMrqPecs ⟨2, 0⟩ 2 s
  (if status = 2 then (leShort pecs).signExtend 32 else BitVec.ofInt 32 status, s)

/-! ## Arbitrary transactions -/

/-- The loop of `FX2LP_SMBWrite` over `left` more whole chunks.  An error is the
status the function returns. -/
def writeWhole (stop : Byte) (data : List Byte) (wholeWrites remainder : Nat) :
    Nat → Nat → Byte → Int → S → Except Int (Byte × Int) × S
  | 0, _, rs, status, s => (.ok (rs, status), s)
  | left + 1, i, rs, _, s =>
      let rs := if i + 1 = wholeWrites ∧ remainder = 0 ∧ stop ≠ 0 then rs ||| writeCmdStopAfter
        else rs
      let (status, s) := d.out smbWrite ⟨64, rs.setWidth 16⟩ ((data.drop (i * 64)).take 64) s
      let rs := rs &&& ~~~writeCmdStartFirst
      let rs := rs &&& ~~~writeCmdRestartFirst
      if status < 64 then (.error status, s)
      else writeWhole stop data wholeWrites remainder left (i + 1) rs status s

/-- `FX2LP_SMBWrite` of the bytes `data`; `status` is not initialised. -/
def write (status : Int) (start restart stop : Byte) (data : List Byte) (s : S) : Int × S :=
  let wholeWrites := data.length / 64
  let remainder := data.length - wholeWrites * 64
  let rs : Byte := 0
  let rs := if start ≠ 0 then rs ||| writeCmdStartFirst else rs
  let rs := if restart ≠ 0 then rs ||| writeCmdRestartFirst else rs
  match writeWhole d stop data wholeWrites remainder wholeWrites 0 rs status s with
  | (.error status, s) => (status, s)
  | (.ok (rs, status), s) =>
      let (status, s) :=
        if 0 < remainder then
          let rs := if stop ≠ 0 then rs ||| writeCmdStopAfter else rs
          d.out smbWrite ⟨BitVec.ofNat 16 remainder, rs.setWidth 16⟩
            ((data.drop (wholeWrites * 64)).take remainder) s
        else (status, s)
      (if 0 < status then data.length else status, s)

/-- The loop of `FX2LP_SMBRead` over `left` more whole chunks. -/
def readWhole (lastRead : Byte) (wholeReads remainder : Nat) :
    Nat → Nat → Byte → Int → Mem Byte → S → Except Int (Byte × Int) × Mem Byte × S
  | 0, _, rs, status, data, s => (.ok (rs, status), data, s)
  | left + 1, i, rs, _, data, s =>
      let rs := if lastRead ≠ 0 ∧ i + 1 = wholeReads ∧ remainder = 0 then rs ||| readCmdLastRead
        else rs
      let ((status, bytes), s) := d.inp smbRead ⟨64, rs.setWidth 16⟩ 64 s
      let data := data.write (i * 64) bytes
      let rs := rs &&& ~~~readCmdFirstRead
      if status < 64 then (.error status, data, s)
      else readWhole lastRead wholeReads remainder left (i + 1) rs status data s

/-- `FX2LP_SMBRead` of `len` bytes to `data`; `status` is not initialised. -/
def read (status : Int) (len : Nat) (data : Mem Byte) (lastRead : Byte) (s : S) :
    Int × Mem Byte × S :=
  let wholeReads := len / 64
  let remainder := len - wholeReads * 64
  match readWhole d lastRead wholeReads remainder wholeReads 0 readCmdFirstRead status data s with
  | (.error status, data, s) => (status, data, s)
  | (.ok (rs, status), data, s) =>
      if 0 < remainder then
        let rs := if lastRead ≠ 0 then rs ||| readCmdLastRead else rs
        let ((status, bytes), s) :=
          d.inp smbRead ⟨BitVec.ofNat 16 remainder, rs.setWidth 16⟩ remainder s
        (status, data.write (wholeReads * 64) bytes, s)
      else (status, data, s)

/-! ## Discovery functions -/

/-- `FX2LP_SMBTestAddressACK`; `res` is a byte. -/
def testAddressAck (address : UInt) (s : S) : Int × S :=
  let ((status, res), s) := d.inp smbTestAddressAck (setupOf address 0) 1 s
  (if status = 1 then leInt res else status, s)

/-- `FX2LP_SMBTestCommandACK`. -/
def testCommandAck (address : UInt) (command : Byte) (s : S) : Int × S :=
  let ((status, res), s) := d.inp smbTestCommandAck (setupOf address command) 1 s
  (if status = 1 then leInt res else status, s)

/-- `FX2LP_SMBTestCommandWrite`. -/
def testCommandWrite (address : UInt) (command : Byte) (s : S) : Int × S :=
  let ((status, res), s) := d.inp smbTestCommandWrite (setupOf address command) 1 s
  (if status = 1 then leInt res else status, s)

end Fx2lp

end Smbusb
