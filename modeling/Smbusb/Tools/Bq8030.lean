import Smbusb.Tools.Flasher

/-!
# smbusb_bq8030flasher

`main` of `smbusb_bq8030flasher.c`.

*The command line.*  `getopt_long` is outside.  An option is what it was given as, short or
long, and `BqOption.code` is what `getopt_long` returns for it by the table of the source.

*Blocks.*  The loops over the blocks of both memories are `flashBlocks` and `verifyBlocks`.
A file is read in blocks one behind the other, so the block `i` of it is `fileBlock`.
-/

namespace Smbusb

open Logic Prog Tool

/-! ## Commands -/

def cmdSetProgramBlockAddress : Byte := 0x0
def cmdReadProgramBlock : Byte := 0x2
def cmdWriteProgramBlock : Byte := 0x5
def cmdEraseProgramFlash : Byte := 0x7
def cmdExecuteFlash : Byte := 0x08
def cmdSetEepromAddress : Byte := 0x9
def cmdReadEepromBlock : Byte := 0xC
def cmdWriteEepromBlock : Byte := 0x10
def cmdEraseEepromFlash : Byte := 0x12
def cmdBootromVersion : Byte := 0x0D
def cmdSbsChemistry : Byte := 0x22
def dataEraseConfirm : Word := 0x83DE

/-- `EEPROM_BASE_ADDR`. -/
def eepromBaseAddr : Nat := 0x4000

/-- `PROGRAM_BLOCKSZ`. -/
def programBlockSz : Nat := 0x60
/-- `EEPROM_BLOCKSZ`. -/
def eepromBlockSz : Nat := 0x20
/-- `PROGRAM_BLOCK_COUNT`. -/
def programBlockCount : Nat := 768
/-- `EEPROM_BLOCK_COUNT`. -/
def eepromBlockCount : Nat := 64
/-- `EEPROM_RESERVED_BYTES`. -/
def eepromReservedBytes : Nat := 32

namespace Bq8030

section

variable (chip : Chip)

def eraseProgramFlash : Tool Unit := do
  let _ ← call chip (.writeWord cmdEraseProgramFlash dataEraseConfirm)

def eraseEepromFlash : Tool Unit := do
  let _ ← call chip (.writeWord cmdEraseEepromFlash dataEraseConfirm)

/-- The call that sets the address of a block of the program flash. -/
def setProgramBlock (blockNr : Nat) : Call :=
  .writeBlock cmdSetProgramBlockAddress
    [BitVec.ofNat 8 blockNr, BitVec.ofNat 8 (blockNr >>> 8), BitVec.ofNat 8 (blockNr >>> 16)]

def readProgramBlock (blockNr : Nat) : Tool BlockAnswer := do
  if (← call chip (setProgramBlock blockNr)) ≠ 3 then return .failed 0
  else Tool.readBlock chip cmdReadProgramBlock

/-- The call that writes a block of the program flash. -/
def programBlockCall (blockNr : Nat) (buf : List Byte) : Call :=
  .writeBlock cmdWriteProgramBlock
    ([BitVec.ofNat 8 blockNr, BitVec.ofNat 8 (blockNr >>> 8)] ++ buf)

def writeProgramBlock (blockNr : Nat) (buf : List Byte) : Tool Int := do
  return (← call chip (programBlockCall blockNr buf)) - 2

/-- The call that writes a block of the eeprom. -/
def eepromBlockCall (blockNr : Nat) (buf : List Byte) : Call :=
  .writeBlock cmdWriteEepromBlock ([BitVec.ofNat 8 blockNr] ++ buf)

def writeEepromBlock (blockNr : Nat) (buf : List Byte) : Tool Int := do
  return (← call chip (eepromBlockCall blockNr buf)) - 1

/-- The call that sets the address of a block of the eeprom.  `blockNr` is a byte. -/
def setEepromBlock (blockNr : Nat) : Call :=
  .writeWord cmdSetEepromAddress (BitVec.ofNat 16 (eepromBaseAddr + blockNr % 256 * 32))

def readEepromBlock (blockNr : Nat) : Tool BlockAnswer := do
  if (← call chip (setEepromBlock blockNr)) < 0 then return .failed 0
  else Tool.readBlock chip cmdReadEepromBlock

end

/-! ## Loops over blocks -/

/-- The block `i` of a file. -/
def fileBlock (size : Nat) (file : List Byte) (i : Nat) : List Byte :=
  (file.drop (i * size)).take size

/-- Save a memory to a file. -/
def saveBlocks (size count : Nat) (name : List Char) (read : Nat → Tool BlockAnswer) : Tool Unit :=
  forUpTo (fun i => do
    let r ← read i
    if r.status ≠ size then do
      print (.error r.status)
      exit 2
    else save name (r.data.take size)) count 0

/-- Write the blocks of a file. -/
def flashBlocks (size count : Nat) (file : List Byte) (write : Nat → List Byte → Tool Int) :
    Tool Unit :=
  forUpTo (fun i => do
    let status ← write i (fileBlock size file i)
    if status ≠ size then do
      print (.error status)
      exit 2
    else pure ()) count 0

/-- Read the blocks back, and compare the first `compared` bytes of each. -/
def verifyBlocks (size count compared : Nat) (file : List Byte) (read : Nat → Tool BlockAnswer) :
    Tool Unit :=
  forUpTo (fun i => do
    let r ← read i
    if r.status ≠ size then do
      print (.error r.status)
      exit 2
    else if (fileBlock size file i).take compared = r.data.take compared then pure ()
    else do
      print (.verifyFail i)
      exit 0) count 0

/-! ## Options -/

/-- The options. -/
inductive BqOption where
  | device (optarg : List Char)
  | confirmDelete
  | noVerify
  | noPec
  | execute
  | saveProgram (optarg : List Char)
  | saveEeprom (optarg : List Char)
  | flashProgram (optarg : List Char)
  | flashEeprom (optarg : List Char)
  /-- `-p`. -/
  | p (optarg : List Char)
  /-- `-e`. -/
  | e (optarg : List Char)
  /-- `-w`. -/
  | w (optarg : List Char)
  /-- `-f`. -/
  | f (optarg : List Char)
  /-- Anything else. -/
  | unknown
deriving DecidableEq, Repr

/-- The variables the options set. -/
structure BqVars where
  programIn : Option (List Char)
  programOut : Option (List Char)
  eepromIn : Option (List Char)
  eepromOut : Option (List Char)
  noVerify : Bool
  noPec : Bool
  confirmDelete : Bool
  execute : Bool
  device : List Char
deriving DecidableEq, Repr

def BqVars.init : BqVars where
  programIn := none
  programOut := none
  eepromIn := none
  eepromOut := none
  noVerify := false
  noPec := false
  confirmDelete := false
  execute := false
  device := "fx2lp://vid=0x04b4,pid=0x8613".toList

/-- The argument of `SMBEnablePEC`. -/
def BqVars.pec (v : BqVars) : Byte := if v.noPec then 0 else 1

/-- What `getopt_long` returns for an option, and its `optarg`. -/
inductive BqCode where
  /-- 0: a flag was set. -/
  | flag (set : BqVars → BqVars)
  | device (optarg : List Char)
  /-- A letter. -/
  | letter (c : Char) (optarg : List Char)

/-- `long_options`, and the short options. -/
def BqOption.code : BqOption → BqCode
  | device optarg => .device optarg
  | confirmDelete => .flag fun v => { v with confirmDelete := true }
  | noVerify => .flag fun v => { v with noVerify := true }
  | noPec => .flag fun v => { v with noPec := true }
  | execute => .flag fun v => { v with execute := true }
  | saveProgram optarg => .letter 'p' optarg
  | saveEeprom optarg => .letter 'e' optarg
  | flashProgram optarg => .letter 'w' optarg
  | flashEeprom optarg => .letter 'f' optarg
  | p optarg => .letter 'p' optarg
  | e optarg => .letter 'e' optarg
  | w optarg => .letter 'w' optarg
  | f optarg => .letter 'f' optarg
  | unknown => .letter '?' []

/-- The switch over the options.  After `?` the tool exits. -/
def bqOption (v : BqVars) (o : BqOption) : Option BqVars :=
  match o.code with
  | .flag set => some (set v)
  | .device optarg => some { v with device := optarg }
  | .letter c optarg =>
      if c = 'p' then some { v with programOut := some optarg }
      else if c = 'e' then some { v with eepromOut := some optarg }
      else if c = 'f' then some { v with programIn := some optarg }
      else if c = 'w' then some { v with eepromIn := some optarg }
      else if c = '?' then none
      else some v

def bqOptions : List BqOption → BqVars → Option BqVars
  | [], v => some v
  | o :: opts, v => (bqOption v o).bind (bqOptions opts)

/-! ## The run -/

section

variable (chip : Chip) (files : Files) (v : BqVars)

/-- Open the device, and see that the chip is in its boot ROM. -/
def bqOpen : Tool Unit := do
  if (v.programOut.isSome || v.eepromOut.isSome) &&
      (v.programIn.isSome || v.eepromIn.isSome) then do
    print .bothWays
    exit 1
  else if (← call chip (.openDevice v.device)) < 0 then do
    print .openError
    exit 0
  else do
    let _ ← call chip (.enablePec v.pec)
    if (← Tool.readBlock chip cmdSbsChemistry).status = 4 then do
      print .runningFirmware
      exit 1
    else if (← call chip (.readWord cmdBootromVersion)) ≤ 0 then do
      print .noBootRom
      exit 1
    else pure ()

/-- `--save-program` and `--save-eeprom`. -/
def bqSave (size count : Nat) (read : Nat → Tool BlockAnswer) : Option (List Char) → Tool Unit
  | none => pure ()
  | some name =>
      if files.output name then saveBlocks size count name read
      -- The text is that of an input file.
      else do
        print .inputError
        exit 3

/-- `if (programIn !=NULL)`.  The flash is erased before the file is looked at. -/
def flashProgram : Tool Unit :=
  match v.programIn with
  | none => pure ()
  | some name =>
      if !v.confirmDelete then do
        print .confirm
        exit 0
      else do
        eraseProgramFlash chip
        let file ← openSized files name (programBlockSz * programBlockCount : Nat)
        flashBlocks programBlockSz programBlockCount file (writeProgramBlock chip)
        if !v.noVerify then
          verifyBlocks programBlockSz programBlockCount programBlockSz file (readProgramBlock chip)
        print (.verified (some .program))

/-- `if (eepromIn !=NULL)`. -/
def flashEeprom : Tool Unit :=
  match v.eepromIn with
  | none => pure ()
  | some name =>
      if !v.confirmDelete then do
        print .confirm
        exit 0
      else do
        let file ← openSized files name (eepromBlockSz * eepromBlockCount : Nat)
        eraseEepromFlash chip
        flashBlocks eepromBlockSz eepromBlockCount file (writeEepromBlock chip)
        if !v.noVerify then
          verifyBlocks eepromBlockSz eepromBlockCount (eepromBlockSz - eepromReservedBytes) file
            (readEepromBlock chip)
        print (.verified (some .eeprom))

/-- `main`, behind the options. -/
def bqRun : Tool Unit := do
  bqOpen chip v
  bqSave files programBlockSz programBlockCount (readProgramBlock chip) v.programOut
  bqSave files eepromBlockSz eepromBlockCount (readEepromBlock chip) v.eepromOut
  flashProgram chip files v
  flashEeprom chip files v
  if v.execute then do
    let _ ← call chip (.sendByte cmdExecuteFlash)

end

/-- `main`. -/
def main (chip : Chip) (files : Files) (cmd : CommandLine BqOption) : Tool Unit :=
  if cmd.argc = 1 then exit 1
  else
    match bqOptions cmd.opts .init with
    | none => exit 0
    | some v => bqRun chip files v

/-- What a run of `main` has done. -/
def bq8030flasher (chip : Chip) (files : Files) (cmd : CommandLine BqOption) : ToolState :=
  endState (main chip files cmd) .init

end Bq8030

end Smbusb
