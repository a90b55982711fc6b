import Smbusb.Tools.Renesas

/-!
# smbusb_m37512flasher

`main` of `smbusb_m37512flasher.c`, and the functions it calls.

*Chunks.*  The flash is read and written in chunks of 16 bytes.  The array `chunk` of `readFlash`
is not cleared between the chunks, so a short block leaves the end of the one before in it.
-/

namespace Smbusb

open Logic Prog Tool

namespace M37512

/-! ## Commands -/

def cmdSetReadAddress : Byte := 0xFF
def cmdReadBlock : Byte := 0xFE
def cmdWriteBlock : Byte := 0x40
def cmdClearBlock : Byte := 0x20
def cmdReadClearStatusRegister : Byte := 0x70

/-- `CHUNKLEN`. -/
def chunkLen : Nat := 0x10

section

variable (chip : Chip)

def readClearStatusRegister : Tool Int := call chip (.readByte cmdReadClearStatusRegister)

/-! ## The flash -/

/-- The call that erases a block.  Its high byte comes first. -/
def clearCall (address : Int) : Call :=
  .writeBlock cmdClearBlock [(toUnsigned address >>> 8).setWidth 8, (toUnsigned address).setWidth 8]

def eraseFlashBlock (address : Int) : Tool Int := do
  let status ← call chip (clearCall address)
  if 0 ≤ status then do
    let _ ← readClearStatusRegister chip
  return status

/-- The two bytes of the address of the chunk `i`. -/
def chunkAddress (address : Int) (i : Nat) : List Byte :=
  let addr := toUnsigned (address + i * chunkLen)
  [addr.setWidth 8, (addr >>> 8).setWidth 8]

/-- The call that sets the address of a chunk. -/
def setReadCall (address : Int) (i : Nat) : Call :=
  .writeBlock cmdSetReadAddress (chunkAddress address i)

/-- The loop of `readFlash`, from the chunk `i` on: whether it got to its end, and `buf`. -/
def readChunks (address : Int) : Nat → Nat → Mem Byte → Mem Byte → Tool (Bool × Mem Byte)
  | 0, _, _, buf => return (true, buf)
  | turns + 1, i, chunk, buf => do
      if (← call chip (setReadCall address i)) < 0 then return (false, buf)
      else do
        let answer ← Tool.readBlock chip cmdReadBlock
        let chunk := chunk.write 0 answer.data
        readChunks address turns (i + 1) chunk (buf.write (i * chunkLen) (chunk.read 0 chunkLen))

/-- `chunk` holds anything at first. -/
def readFlash (arrays : Arrays) (address len : Int) (buf : Mem Byte) : Tool (Int × Mem Byte) :=
  if len.tmod chunkLen ≠ 0 then return (-99, buf)
  else do
    let chunk := arrays.scratch (← get).sent
    let (through, buf) ← readChunks chip address (len.tdiv chunkLen).toNat 0 chunk buf
    return (if through then len else -1, buf)

/-- The call that writes the chunk `i`. -/
def writeCall (address : Int) (i : Nat) (data : List Byte) : Call :=
  .writeBlock cmdWriteBlock (chunkAddress address i ++ data)

/-- The loop of `writeFlash`, from the chunk `i` on: the status that ended it, if one did. -/
def writeChunks (address : Int) (buf : Mem Byte) : Nat → Nat → Tool (Option Int)
  | 0, _ => return none
  | turns + 1, i => do
      let _ ← readClearStatusRegister chip
      let status ← call chip (writeCall address i (buf.read (i * chunkLen) chunkLen))
      if status < 0 then return some status
      else writeChunks address buf turns (i + 1)

def writeFlash (address len : Int) (buf : Mem Byte) : Tool Int :=
  if len.tmod chunkLen ≠ 0 then return -99
  else do
    return (← writeChunks chip address buf (len.tdiv chunkLen).toNat 0).getD len

end

/-! ## Options -/

def presets : List (List Char × Int × Int) :=
  [("bb".toList, 0x1000, 0x800), ("ba".toList, 0x1800, 0x800), ("b3".toList, 0x4000, 0x4000),
    ("b2".toList, 0x8000, 0x4000), ("b1".toList, 0xC000, 0x2000), ("b0".toList, 0xE000, 0x2000)]

/-- `long_options`, and the short options.  The options of the other tool are unknown here. -/
def code : RamOption → RamCode
  | .device optarg => .device optarg
  | .confirmDelete => .flag fun v => { v with confirmDelete := true }
  | .noVerify => .flag fun v => { v with noVerify := true }
  | .execute => .letter '?' []
  | .erase => .flag fun v => { v with opErase := true }
  | .fixLgcStaticChecksum => .letter '?' []
  | .address optarg => .letter 'a' optarg
  | .dump optarg => .letter 'd' optarg
  | .size optarg => .letter 's' optarg
  | .write optarg => .letter 'w' optarg
  | .preset optarg => .letter 'p' optarg
  | .a optarg => .letter 'a' optarg
  | .d optarg => .letter 'd' optarg
  | .s optarg => .letter 's' optarg
  | .w optarg => .letter 'w' optarg
  | .p optarg => .letter 'p' optarg
  | .e => .letter 'e' []
  | .unknown => .letter '?' []

def table : RamTable := ⟨code, fun name => List.lookup name presets⟩

/-! ## The run -/

section

variable (chip : Chip) (files : Files) (arrays : Arrays) (v : RamVars)

/-- `if (ramOut != NULL)`. -/
def dump (block : Mem Byte) : Tool (Mem Byte) :=
  match v.ramOut with
  | none => pure block
  | some name =>
      if v.opAddress = -1 ∨ v.opSize = -1 then do
        print .missing
        exit 2
      else if v.opSize.tmod chunkLen ≠ 0 then do
        print .unaligned
        exit 2
      else if files.output name then do
        let (status, block) ← readFlash chip arrays v.opAddress v.opSize block
        if status ≤ 0 then print (.error status)
        save name (block.read 0 (toSize v.opSize))
        return block
      else do
        print .outputError
        exit 3

/-- `if (!noVerify)`. -/
def verify (block : Mem Byte) : Tool Unit := do
  if !v.noVerify then do
    let (status, block2) ← readFlash chip arrays v.opAddress v.opSize arrays.block2
    if status < 0 then do
      print (.error status)
      exit 0
    else if block.read 0 (toSize v.opSize) = block2.read 0 (toSize v.opSize) then
      print (.verified none)
    -- `i` is set to what the comparison with 0 says.
    else print (.verifyFail 0)

/-- Erase the block; after a failure the status that is printed is that of a second try. -/
def eraseOrExit : Tool Unit := do
  if (← eraseFlashBlock chip v.opAddress) < 0 then do
    let status ← eraseFlashBlock chip v.opAddress
    print (.eraseError (some status))
    exit 0

/-- `if (ramIn !=NULL)`. -/
def write (block : Mem Byte) : Tool Unit :=
  match v.ramIn with
  | none => pure ()
  | some name =>
      if v.opSize.tmod chunkLen ≠ 0 then do
        print .unaligned
        exit 2
      else if !v.confirmDelete then do
        print .confirm
        exit 0
      else do
        let file ← ramInput files name v.opSize
        let block := block.write 0 (file.take (toSize v.opSize))
        eraseOrExit chip v
        let status ← writeFlash chip v.opAddress v.opSize block
        if status ≤ 0 then print (.error status)
        verify chip arrays v block

/-- `if (opErase)`. -/
def erase : Tool Unit := ramErase v (eraseOrExit chip v)

/-- `main`, behind the options. -/
def run : Tool Unit := do
  let block ← ramOpen chip arrays v
  let block ← dump chip files arrays v block
  write chip files arrays v block
  erase chip v

end

/-- `main`. -/
def main (chip : Chip) (files : Files) (arrays : Arrays) (cmd : CommandLine RamOption) :
    Tool Unit :=
  if cmd.argc = 1 then exit 1
  else
    match ramOptions table cmd.opts .init with
    | none => exit 0
    | some v => run chip files arrays v

/-- What a run of `main` has done. -/
def m37512flasher (chip : Chip) (files : Files) (arrays : Arrays) (cmd : CommandLine RamOption) :
    ToolState :=
  endState (main chip files arrays cmd) .init

/-- The calls that erase a block or write a chunk. -/
def destroys : Call → Bool
  | .writeBlock command _ => command == cmdClearBlock || command == cmdWriteBlock
  | _ => false

end M37512

end Smbusb
