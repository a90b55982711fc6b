import Smbusb.Firmware.Machine

/-!
# The vendor requests

`handleVendorcommand` is `handle_vendorcommand`, one definition for each case of
its switch, in the order of the source.  A handler returns what the source
returns: false makes fx2lib stall the request.

*Locals.*  `smb_addr` and `smb_cmd` are the 16-bit `wValue` and `wIndex` of the
setup packet.  They are cut to a byte where the source passes them as one.  The
counters `i`, `j` and `blocklen` are bytes, so they wrap.  Comparisons such as
`i==blocklen-2` are between `int`s in C and are written without the subtraction.

*Loops.*  Every `while` takes the fuel of the handler.  `while (EP0CS&bmEPBUSY)`
is left out: endpoint 0 becomes ready.
-/

namespace Smbusb

open Logic Prog Fw

/-! ## Request codes and flags -/

def smbInterfaceId : Byte := 0x99
def smbFirmwareVersion : Byte := 0x98
def smbEnablePec : Byte := 0x05
def smbReadByte : Byte := 0x10
def smbWriteByte : Byte := 0x11
def smbSendByte : Byte := 0x12
def smbReadWord : Byte := 0x20
def smbWriteWord : Byte := 0x21
def smbReadBlock : Byte := 0x30
def smbWriteBlock : Byte := 0x32
def smbWrite : Byte := 0x50
def smbRead : Byte := 0x51
def smbGetClearPecFail : Byte := 0x54
def smbGetMrqPecs : Byte := 0x55
def smbResetInterface : Byte := 0x61
def smbTestAddressAck : Byte := 0x90
def smbTestCommandAck : Byte := 0x91
def smbTestCommandWrite : Byte := 0x92

/-- `SMB_WRITE_CMD_START_FIRST`. -/
def writeCmdStartFirst : Byte := 0x1
/-- `SMB_WRITE_CMD_RESTART_FIRST`. -/
def writeCmdRestartFirst : Byte := 0x2
/-- `SMB_WRITE_CMD_STOP_AFTER`. -/
def writeCmdStopAfter : Byte := 0x4
/-- `SMB_READ_CMD_FIRST_READ`. -/
def readCmdFirstRead : Byte := 0x1
/-- `SMB_READ_CMD_LAST_READ`. -/
def readCmdLastRead : Byte := 0x2

/-- `x & flag`, as a condition. -/
def hasFlag (x flag : Byte) : Bool := x &&& flag != 0

/-- The setup packet, as far as `handle_vendorcommand` uses it. -/
structure Setup where
  /-- `wValue`, the source's `smb_addr`. -/
  value : Word
  /-- `wIndex`, the source's `smb_cmd`. -/
  index : Word

/-- A word passed where the source expects a `BYTE`. -/
def toByte (w : Word) : Byte := w.setWidth 8

namespace Handler

section

variable (T : Target) (fuel : Nat) (smbAddr smbCmd : Word)

/-! ## Interface requests -/

def enablePec : Fw Bool := do
  setEp0bcl 0
  modify fun s => { s with pecEnabled := decide (0 < smbAddr) }
  modify fun s => if s.pecEnabled then s else { s with mrqPec := 0, rcvPec := 0 }
  return true

def interfaceId : Fw Bool := do
  setEp0buf 0 0x55
  setEp0buf 1 0x53
  setEp0buf 2 0x4D
  setEp0bcl 3
  return true

def firmwareVersion : Fw Bool := do
  setEp0buf 0 1
  setEp0buf 1 0
  setEp0buf 2 1
  setEp0bcl 3
  return true

/-! ## Byte and word requests -/

def sendByte : Fw Bool := do
  if ← i2c (i2cStart T) then
    if ← i2c (i2cByteout T (toByte smbAddr)) then
      if ← i2c (i2cByteout T (toByte smbCmd)) then
        i2cDo (i2cStop T)
        setEp0bcl 0
        return true
      else
        i2cDo (i2cStop T)
        return false
    else
      i2cDo (i2cStop T)
      return false
  else return false

/-- `rbfail`, `wbfail`, `rwfail`, `wwfail`, `wlfail` and `wafail` share one body. -/
def stopFail : Fw Bool := do
  i2cDo (i2cStop T)
  return false

def readByte : Fw Bool :=
  labels
    (do orGoto (i2c (i2cStart T)) .rbfail
        orGoto (i2c (i2cByteout T (toByte smbAddr))) .rbfail
        orGoto (i2c (i2cByteout T (toByte smbCmd))) .rbfail
        i2cDo i2cRestart
        orGoto (i2c (i2cByteout T (toByte (smbAddr + 1)))) .rbfail
        let b ← if (← get).pecEnabled then do
            let b ← i2c (i2cBytein T true false true false)
            let pec := pecCrc 0 (toByte smbAddr)
            let pec := pecCrc pec (toByte smbCmd)
            let pec := pecCrc pec (toByte (smbAddr + 1))
            let pec := pecCrc pec b
            let rpec ← i2c (i2cBytein T false false false true)
            if rpec ≠ pec then do
              setEp0bcl 0
              modify fun s => { s with pecFailed := true }
              goto .rbfail
            else pure b
          else i2c (i2cBytein T true true false true)
        setEp0buf 0 b
        setEp0bcl 1
        return true)
    fun _ => stopFail T

def writeByte : Fw Bool :=
  labels
    (do orGoto (i2c (i2cStart T)) .wbfail
        orGoto (i2c (i2cByteout T (toByte smbAddr))) .wbfail
        orGoto (i2c (i2cByteout T (toByte smbCmd))) .wbfail
        orGoto (i2c (i2cByteout T (← ep0buf 0))) .wbfail
        if (← get).pecEnabled then
          let pec := pecCrc 0 (toByte smbAddr)
          let pec := pecCrc pec (toByte smbCmd)
          let pec := pecCrc pec (← ep0buf 0)
          orGoto (i2c (i2cByteout T pec)) .wbfail
        i2cDo (i2cStop T)
        return true)
    fun _ => stopFail T

def readWord : Fw Bool :=
  labels
    (do orGoto (i2c (i2cStart T)) .rwfail
        orGoto (i2c (i2cByteout T (toByte smbAddr))) .rwfail
        orGoto (i2c (i2cByteout T (toByte smbCmd))) .rwfail
        i2cDo i2cRestart
        orGoto (i2c (i2cByteout T (toByte (smbAddr + 1)))) .rwfail
        if (← get).pecEnabled then
          let b ← i2c (i2cBytein T true false false false)
          setEp0buf 0 b
          let pec := pecCrc 0 (toByte smbAddr)
          let pec := pecCrc pec (toByte smbCmd)
          let pec := pecCrc pec (toByte (smbAddr + 1))
          let pec := pecCrc pec b
          let b ← i2c (i2cBytein T false false true false)
          setEp0buf 1 b
          let pec := pecCrc pec b
          let rpec ← i2c (i2cBytein T false false false true)
          if rpec ≠ pec then
            setEp0bcl 0
            modify fun s => { s with pecFailed := true }
            goto .rwfail
        else
          let b ← i2c (i2cBytein T true false true false)
          setEp0buf 0 b
          let b ← i2c (i2cBytein T false false false true)
          setEp0buf 1 b
        setEp0bcl 2
        return true)
    fun _ => stopFail T

def writeWord : Fw Bool :=
  labels
    (do orGoto (i2c (i2cStart T)) .wwfail
        orGoto (i2c (i2cByteout T (toByte smbAddr))) .wwfail
        orGoto (i2c (i2cByteout T (toByte smbCmd))) .wwfail
        orGoto (i2c (i2cByteout T (← ep0buf 0))) .wwfail
        orGoto (i2c (i2cByteout T (← ep0buf 1))) .wwfail
        if (← get).pecEnabled then
          let pec := pecCrc 0 (toByte smbAddr)
          let pec := pecCrc pec (toByte smbCmd)
          let pec := pecCrc pec (← ep0buf 0)
          let pec := pecCrc pec (← ep0buf 1)
          orGoto (i2c (i2cByteout T pec)) .wwfail
        i2cDo (i2cStop T)
        return true)
    fun _ => stopFail T

/-! ## Block requests -/

/-- `if (templen>0 && count>BLOCK_SEQ_TIMEOUT)`: drop a sequence that is too old. -/
def expireSeq : Fw Unit := modify Fx2.expire

/-- `READ_BLOCK` with data outstanding: the next piece of `temp`. -/
def readBlockNext : Fw Bool := do
  let s ← get
  let blocklen : Byte := if 64 < s.templen - s.tempptr then 64 else toByte (s.templen - s.tempptr)
  let (_, j) ← whileLoop (fun (_, j) _ => j < blocklen)
    (fun ((i, j) : Byte × Byte) => do
      setEp0buf j.toNat (← temp i.toNat)
      return (i + 1, j + 1))
    fuel (toByte s.tempptr, (0 : Byte))
  modify fun s => { s with tempptr := s.tempptr + j.setWidth 16 }
  setEp0bcl blocklen
  modify fun s =>
    if s.templen - s.tempptr = 0 then { s with templen := 0, tempptr := 0 } else s
  return true

/-- The locals of the loop of a fresh `READ_BLOCK`. -/
structure ReadVars where
  i : Byte
  blocklen : Byte
  pec : Byte
  rpec : Byte

/-- One turn of the loop of a fresh `READ_BLOCK`. -/
def readBlockTurn (v : ReadVars) : Fw ReadVars := do
  let b ← i2c (i2cBytein T (v.i == 0) false
    (v.i.toNat + 2 == v.blocklen.toNat) (v.i.toNat + 1 == v.blocklen.toNat))
  if v.i = 0 ∧ (0xFE < b ∨ b = 0) then goto .rlstopfail
  else
    let blocklen := if v.i = 0 then b + 2 else v.blocklen
    let on := (← get).pecEnabled
    -- The last byte is the PEC: it is kept apart and never stored.
    let pec := if on ∧ v.i.toNat + 1 < blocklen.toNat then pecCrc v.pec b else v.pec
    let rpec := if on ∧ v.i.toNat + 1 = blocklen.toNat then b else v.rpec
    if v.i.toNat + 1 < blocklen.toNat then
      if v.i < 64 then setEp0buf v.i.toNat b else setTemp (v.i.toNat - 64) b
    return { i := v.i + 1, blocklen, pec, rpec }

/-- A fresh `READ_BLOCK` addresses the target. -/
def readBlockAddress : Fw Unit := do
  orGoto (i2c (i2cStart T)) .rlfail
  orGoto (i2c (i2cByteout T (toByte smbAddr))) .rlstopfail
  orGoto (i2c (i2cByteout T (toByte smbCmd))) .rlstopfail
  i2cDo i2cRestart
  orGoto (i2c (i2cByteout T (toByte (smbAddr + 1)))) .rlstopfail

/-- A fresh `READ_BLOCK` reads the block, once the target is addressed. -/
def readBlockData : Fw Bool := do
  let pec := if (← get).pecEnabled then
      pecCrc (pecCrc (pecCrc 0 (toByte smbAddr)) (toByte smbCmd)) (toByte (smbAddr + 1))
    else 0
  let v ← whileLoop (fun v _ => v.i < v.blocklen) (readBlockTurn T) fuel
    { i := 0, blocklen := 255, pec, rpec := 0 }
  modify fun s =>
    if 65 < v.blocklen.toNat then
      { s with templen := v.blocklen.setWidth 16 - 65, tempptr := 0, count := 0 }
    else s
  if (← get).pecEnabled ∧ v.rpec ≠ v.pec then
    modify fun s => { s with pecFailed := true }
    goto .rlfail
  else
    setEp0bcl (if 65 < v.blocklen.toNat then 64 else v.blocklen - 1)
    return true

/-- The fresh part of `READ_BLOCK`, up to its labels. -/
def readBlockFresh : Fw Bool := do
  readBlockAddress T smbAddr smbCmd
  readBlockData T fuel smbAddr smbCmd

/-- `rlstopfail` falls through to `rlfail`. -/
def readBlockFail (l : Label) : Fw Bool := do
  if l = .rlstopfail then i2cDo (i2cStop T)
  setEp0bcl 0
  return false

def readBlock : Fw Bool := do
  expireSeq
  let s ← get
  if 0 < s.templen - s.tempptr then readBlockNext fuel
  else labels (readBlockFresh T fuel smbAddr smbCmd) (readBlockFail T)

/-- `WRITE_BLOCK` that opens a sequence: its first 63 data bytes. -/
def writeBlockOpen : Fw Bool := do
  let len ← ep0buf 0
  modify fun s => { s with templen := len.setWidth 16, tempptr := 0 }
  whileLoop (fun (_ : Unit) s => s.tempptr < 63)
    (fun _ => do
      let p := (← get).tempptr.toNat
      setTemp p (← ep0buf (1 + p))
      modify fun s => { s with tempptr := s.tempptr + 1 })
    fuel ()
  modify fun s => { s with count := 0 }
  return true

/-- `WRITE_BLOCK` inside a sequence: store what this request brings. -/
def writeBlockStore : Fw Unit := do
  let s ← get
  if s.tempptr < s.templen then
    let blocklen : Byte :=
      if 64 < s.templen - s.tempptr then 64 else toByte (s.templen - s.tempptr)
    let (i, _) ← whileLoop (fun (i, _) _ => i < blocklen)
      (fun ((i, j) : Byte × Byte) => do
        setTemp j.toNat (← ep0buf i.toNat)
        return (i + 1, j + 1))
      fuel ((0 : Byte), toByte s.tempptr)
    modify fun s => { s with tempptr := s.tempptr + i.setWidth 16 }

/-- Send a block.  The source has this code twice, with its `count`, its loop
condition, the cells it reads and what it does after the STOP. -/
def sendBlock (count : Fx2 → Byte) (more : Byte → Fx2 → Bool) (cell : Nat → Fw Byte)
    (done : Fx2 → Fx2) : Fw Bool := do
  orGoto (i2c (i2cStart T)) .wlfail
  orGoto (i2c (i2cByteout T (toByte smbAddr))) .wlfail
  orGoto (i2c (i2cByteout T (toByte smbCmd))) .wlfail
  orGoto (i2c (i2cByteout T (count (← get)))) .wlfail
  let s ← get
  let pec := if s.pecEnabled then
      pecCrc (pecCrc (pecCrc 0 (toByte smbAddr)) (toByte smbCmd)) (count s)
    else 0
  let (_, pec) ← whileLoop (fun (i, _) s => more i s)
    (fun ((i, pec) : Byte × Byte) => do
      let b ← cell i.toNat
      orGoto (i2c (i2cByteout T b)) .wlfail
      return (i + 1, if (← get).pecEnabled then pecCrc pec b else pec))
    fuel ((0 : Byte), pec)
  if (← get).pecEnabled then orGoto (i2c (i2cByteout T pec)) .wlfail
  i2cDo (i2cStop T)
  modify done
  return true

/-- `WRITE_BLOCK` with a complete sequence: send it from `temp`. -/
def writeBlockSendTemp : Fw Bool :=
  sendBlock T fuel smbAddr smbCmd (fun s => toByte s.templen)
    (fun i s => i.setWidth 16 < s.templen) temp
    (fun s => { s with tempptr := 0, templen := 0 })

/-- `WRITE_BLOCK` in one request: send it from `EP0BUF`. -/
def writeBlockSendEp0 : Fw Bool :=
  sendBlock T fuel smbAddr smbCmd (fun s => s.ep0buf 0) (fun i s => i < s.ep0buf 0)
    (fun i => ep0buf (1 + i)) id

def writeBlock : Fw Bool := do
  expireSeq
  let s ← get
  if s.templen = 0 ∧ 64 < s.ep0buf 0 then writeBlockOpen fuel
  else if 0 < s.templen then do
    writeBlockStore fuel
    let s ← get
    if s.tempptr = s.templen then
      labels (writeBlockSendTemp T fuel smbAddr smbCmd) fun _ => stopFail T
    else return true
  else labels (writeBlockSendEp0 T fuel smbAddr smbCmd) fun _ => stopFail T

/-! ## Arbitrary transactions

Here `smb_addr` is the number of bytes and `smb_cmd` holds the flags. -/

/-- `WRITE`, its conditions. -/
def writeConditions : Fw Unit := do
  if hasFlag (toByte smbCmd) writeCmdStartFirst then
    modify fun s => if s.pecEnabled then { s with mrqPec := 0 } else s
    orGoto (i2c (i2cStart T)) .wafail
  if hasFlag (toByte smbCmd) writeCmdRestartFirst then i2cDo i2cRestart

/-- `WRITE`, its bytes. -/
def writeBytes : Fw Unit := do
  let _ ← whileLoop (fun (i : Byte) _ => i.setWidth 16 < smbAddr)
    (fun i => do
      let b ← ep0buf i.toNat
      orGoto (i2c (i2cByteout T b)) .wafail
      modify fun s => if s.pecEnabled then { s with mrqPec := pecCrc s.mrqPec b } else s
      return i + 1)
    fuel (0 : Byte)

/-- `WRITE`, its end. -/
def writeFinish : Fw Unit := do
  if hasFlag (toByte smbCmd) writeCmdStopAfter then
    let s ← get
    if s.pecEnabled then orGoto (i2c (i2cByteout T s.mrqPec)) .wafail
    i2cDo (i2cStop T)

def write : Fw Bool :=
  labels
    (do writeConditions T smbCmd
        writeBytes T fuel smbAddr
        writeFinish T smbCmd
        return true)
    fun _ => stopFail T

/-- One turn of the loop of `READ`, over `i` and `rs`. -/
def readTurn (j : Byte) : Byte × Byte → Fw (Byte × Byte) := fun (i, rs) => do
  let first := hasFlag rs readCmdFirstRead
  let last := hasFlag rs readCmdLastRead
  let b ← i2c (i2cBytein T first (first && j == 1)
    (last && i.toNat + 2 == j.toNat) (last && i.toNat + 1 == j.toNat))
  if (← get).pecEnabled then
    if last && i.toNat + 1 == j.toNat then modify fun s => { s with rcvPec := b }
    else
      setEp0buf i.toNat b
      modify fun s => { s with mrqPec := pecCrc s.mrqPec b }
  else setEp0buf i.toNat b
  return (i + 1, rs &&& ~~~readCmdFirstRead)

def read : Fw Bool := do
  let rs := toByte smbCmd
  let j := toByte smbAddr
  -- The PEC byte is read behind the data of the last request.
  let j := if (← get).pecEnabled ∧ hasFlag rs readCmdLastRead then j + 1 else j
  let _ ← whileLoop (fun (i, _) _ => i < j) (readTurn T j) fuel ((0 : Byte), rs)
  setEp0bcl (toByte smbAddr)
  return true

/-! ## Status requests -/

def getClearPecFail : Fw Bool := do
  if (← get).pecFailed then
    setEp0buf 0 0xFF
    modify fun s => { s with pecFailed := false }
  else setEp0buf 0 0
  setEp0bcl 1
  return true

/-- The debug request `0x66`. -/
def dumpTemp : Fw Bool := do
  let _ ← whileLoop (fun (i : Byte) _ => i < 64)
    (fun i => do
      setEp0buf i.toNat (← temp i.toNat)
      return i + 1)
    fuel (0 : Byte)
  setEp0bcl 64
  return true

/-- The debug request `0x67`. -/
def dumpCount : Fw Bool := do
  let count := (← get).count
  setEp0buf 0 (toByte (count &&& 0xFF))
  setEp0buf 1 (toByte (count >>> 8))
  setEp0bcl 2
  return true

def getMrqPecs : Fw Bool := do
  let s ← get
  setEp0buf 0 s.mrqPec
  setEp0buf 1 s.rcvPec
  setEp0bcl 2
  return true

def resetInterface : Fw Bool := do
  modify fun s => { s with mrqPec := 0, rcvPec := 0, templen := 0, tempptr := 0 }
  i2cDo (i2cStop T)
  return true

def testAddressAck : Fw Bool := do
  if ← i2c (i2cStart T) then
    let ack ← i2c (i2cByteout T (toByte smbAddr))
    i2cDo (i2cStop T)
    setEp0buf 0 (if ack then 0xFF else 0)
    setEp0bcl 1
    return true
  else return false

def testCommandAck : Fw Bool := do
  if ← i2c (i2cStart T) then
    let ack ← labels
      (do orGoto (i2c (i2cByteout T (toByte smbAddr))) .tcaFail
          i2c (i2cByteout T (toByte smbCmd)))
      fun _ => pure false
    i2cDo (i2cStop T)
    setEp0buf 0 (if ack then 0xFF else 0)
    setEp0bcl 1
    return true
  else return false

/-- `(*EP0BUF)++`. -/
def countAck : Fw Unit := do
  setEp0buf 0 ((← ep0buf 0) + 1)

def testCommandWrite : Fw Bool := do
  setEp0buf 0 0
  if ← i2c (i2cStart T) then
    labels
      (do orGoto (i2c (i2cByteout T (toByte smbAddr))) .tcwOver
          orGoto (i2c (i2cByteout T (toByte smbCmd))) .tcwOver
          countAck
          orGoto (i2c (i2cByteout T 3)) .tcwOver
          countAck
          orGoto (i2c (i2cByteout T 0)) .tcwOver
          countAck
          orGoto (i2c (i2cByteout T 0)) .tcwOver
          orGoto (i2c (i2cByteout T 0)) .tcwOver
          countAck
          orGoto (i2c (i2cByteout T 0)) .tcwOver
          countAck)
      fun _ => pure ()
    i2cDo (i2cStop T)
    setEp0bcl 1
    return true
  else return false

end

end Handler

open Handler in
/-- `handle_vendorcommand`. -/
def handleVendorcommand (T : Target) (fuel : Nat) (cmd : Byte) (setup : Setup) : Fw Bool :=
  if cmd = smbEnablePec then enablePec setup.value
  else if cmd = smbInterfaceId then interfaceId
  else if cmd = smbFirmwareVersion then firmwareVersion
  else if cmd = smbSendByte then sendByte T setup.value setup.index
  else if cmd = smbReadByte then readByte T setup.value setup.index
  else if cmd = smbWriteByte then writeByte T setup.value setup.index
  else if cmd = smbReadWord then readWord T setup.value setup.index
  else if cmd = smbWriteWord then writeWord T setup.value setup.index
  else if cmd = smbReadBlock then readBlock T fuel setup.value setup.index
  else if cmd = smbWriteBlock then writeBlock T fuel setup.value setup.index
  else if cmd = smbWrite then write T fuel setup.value setup.index
  else if cmd = smbRead then read T fuel setup.value setup.index
  else if cmd = smbGetClearPecFail then getClearPecFail
  else if cmd = 0x66 then dumpTemp fuel
  else if cmd = 0x67 then dumpCount
  else if cmd = smbGetMrqPecs then getMrqPecs
  else if cmd = smbResetInterface then resetInterface T
  else if cmd = smbTestAddressAck then testAddressAck T setup.value
  else if cmd = smbTestCommandAck then testCommandAck T setup.value setup.index
  else if cmd = smbTestCommandWrite then testCommandWrite T setup.value setup.index
  else pure false

end Smbusb
