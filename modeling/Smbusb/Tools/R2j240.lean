import Smbusb.Tools.Renesas

/-!
# smbusb_r2j240flasher

`main` of `smbusb_r2j240flasher.c`, and the functions it calls.

*Loops.*  `remain` is what bounds the loops of `readRam` and `writeRam`: it is a `size_t`, and
every turn takes at least one byte off it.  So the loops have `size` turns at most, which is
their fuel.
-/

namespace Smbusb

open Logic Prog Tool

namespace R2j240

/-! ## Commands -/

def cmdReadRam : Byte := 0xFC
def cmdWriteRam : Byte := 0xFD
def cmdEraseBlock : Byte := 0x20
def cmdReadClearStatusReg : Byte := 0x50
def cmdExecuteFlash : Word := 0xD001

/-- `ETIMEDOUT`. -/
def etimedout : Int := 110

/-- The three bytes of an address. -/
def addressBytes (addr : UInt) : List Byte :=
  [addr.setWidth 8, (addr >>> 8).setWidth 8, (addr >>> 16).setWidth 8]

/-- The length of a message for a part of the RAM. -/
def lengthBytes (cur : Nat) : List Byte := [BitVec.ofNat 8 cur, BitVec.ofNat 8 (cur >>> 8)]

section

variable (chip : Chip)

/-! ## The RAM -/

/-- The call that reads a part of the RAM. -/
def readRamCall (addr : UInt) (cur : Nat) : Call :=
  .transfer (cmdReadRam :: addressBytes addr ++ lengthBytes cur) (some cur)

/-- The `cur` bytes of a message that was received. -/
def receive (sent : List Call) (cur : Nat) : List Byte :=
  (List.range cur).map fun i => (chip.received sent).getD i 0

/-- `while (remain)` of `readRam`: `sts` and `buf`.  A transfer that succeeds receives the whole
message, and one that fails may have stored a part of it. -/
def readRamLoop : Nat → Nat → Nat → UInt → Int → Mem Byte → Tool (Int × Mem Byte)
  | 0, _, _, _, sts, buf => return (sts, buf)
  | fuel + 1, remain, ptr, addr, sts, buf =>
      if remain = 0 then return (sts, buf)
      else do
        let cur := min remain 64
        let sts ← call chip (readRamCall addr cur)
        let sent := (← get).sent
        if sts < 0 then return (sts, buf.write ptr ((chip.received sent).take cur))
        else
          readRamLoop fuel (remain - cur) (ptr + cur) (addr + BitVec.ofNat 32 cur) sts
            (buf.write ptr (receive chip sent cur))

def readRam (address size : UInt) (buf : Mem Byte) : Tool (Int × Mem Byte) := do
  let (sts, buf) ← readRamLoop chip size.toNat size.toNat 0 address 0 buf
  return (if sts < 0 then -1 else size.toInt, buf)

/-- The call that writes a part of the RAM. -/
def writeRamCall (addr : UInt) (data : List Byte) : Call :=
  .transfer (cmdWriteRam :: addressBytes addr ++ lengthBytes data.length ++ data) none

/-- `while (remain)` of `writeRam`: `sts`. -/
def writeRamLoop : Nat → Nat → Nat → UInt → Int → Mem Byte → Tool Int
  | 0, _, _, _, sts, _ => return sts
  | fuel + 1, remain, ptr, addr, sts, buf =>
      if remain = 0 then return sts
      else do
        let cur := min remain 26
        let sts ← call chip (writeRamCall addr (buf.read ptr cur))
        if sts < 0 then return sts
        else writeRamLoop fuel (remain - cur) (ptr + cur) (addr + BitVec.ofNat 32 cur) sts buf

def writeRam (address size : UInt) (buf : Mem Byte) : Tool Int := do
  let sts ← writeRamLoop chip size.toNat size.toNat 0 address 0 buf
  return if sts < 0 then -1 else size.toInt

/-! ## Erasing -/

/-- The call that erases a block. -/
def eraseCall (address : UInt) : Call := .writeBlock cmdEraseBlock (addressBytes address)

/-- The loop that reads the block back: `status`, or 1 when it was `done`. -/
def readBack (address size : UInt) : Nat → Int → Mem Byte → Tool Int
  | 0, status, _ => return status
  | turns + 1, _, buf => do
      let (status, buf) ← readRam chip address size buf
      if status < 0 then readBack address size turns status buf
      else if buf.read 0 size.toNat = List.replicate size.toNat 0xFF then return 1
      else readBack address size turns status buf

variable (arrays : Arrays)

def eraseFlashBlock (address size : UInt) : Tool Int := do
  let status ← call chip (eraseCall address)
  if status < 0 then return status
  else do
    let status ← call chip (.readWord cmdReadClearStatusReg)
    let sent := (← get).sent
    if status < 0 ∧ chip.errno sent = etimedout ∧ size ≠ 0 then
      readBack chip address size 10 status (arrays.scratch sent)
    else return status

end

/-! ## The checksum -/

/-- The word `j` of an array. -/
def word (block : Mem Byte) (j : Nat) : UInt :=
  block (4 * j + 3) ++ block (4 * j + 2) ++ block (4 * j + 1) ++ block (4 * j)

/-- The bytes of a word. -/
def uint32Bytes (w : UInt) : List Byte :=
  [w.setWidth 8, (w >>> 8).setWidth 8, (w >>> 16).setWidth 8, (w >>> 24).setWidth 8]

/-- `if (lgcChecksumFix)`: the last word is set. -/
def fixLgcChecksum (opSize : Int) (block : Mem Byte) : Mem Byte :=
  let last := (opSize.tdiv 4 - 1).toNat
  let chk : UInt := (List.range last).foldl (fun chk j => chk - word block j) 0
  block.write (4 * last) (uint32Bytes chk)

/-! ## Options -/

def presets : List (List Char × Int × Int) :=
  [("df1".toList, 0x3000, 0x400), ("df2".toList, 0x3400, 0x400), ("df3".toList, 0xC000, 0x2000),
    ("full1".toList, 0, 0x10000), ("full2".toList, 0x10000, 0x2000), ("fw".toList, 0x4000, 0x8000)]

/-- `long_options`, and the short options. -/
def code : RamOption → RamCode
  | .device optarg => .device optarg
  | .confirmDelete => .flag fun v => { v with confirmDelete := true }
  | .noVerify => .flag fun v => { v with noVerify := true }
  | .execute => .flag fun v => { v with opExecute := true }
  | .erase => .flag fun v => { v with opErase := true }
  | .fixLgcStaticChecksum => .flag fun v => { v with lgcChecksumFix := true }
  | .address optarg => .letter 'a' optarg
  | .dump optarg => .letter 'd' optarg
  | .size optarg => .letter 's' optarg
  | .write optarg => .letter 'w' optarg
  | .preset optarg => .letter 'p' optarg
  | .a optarg => .letter 'a' optarg
  | .d optarg => .letter 'd' optarg
  | .s optarg => .letter 's' optarg
  | .w optarg => .letter 'w' optarg
  | .p optarg => .letter 'p' optarg
  | .e => .letter 'e' []
  | .unknown => .letter '?' []

def table : RamTable := ⟨code, fun name => List.lookup name presets⟩

/-! ## The run -/

section

variable (chip : Chip) (files : Files) (arrays : Arrays) (v : RamVars)

/-- `if (ramOut != NULL)`. -/
def dump (block : Mem Byte) : Tool (Mem Byte) :=
  match v.ramOut with
  | none => pure block
  | some name =>
      if v.opAddress = -1 ∨ v.opSize = -1 then do
        print .missing
        exit 2
      else if files.output name then do
        let (status, block) ← readRam chip (toUnsigned v.opAddress) (toUnsigned v.opSize) block
        if status ≤ 0 then print (.error status)
        save name (block.read 0 (toSize v.opSize))
        return block
      else do
        print .outputError
        exit 3

/-- `if (!noVerify)`.  What `readRam` returns is not looked at. -/
def verify (block : Mem Byte) : Tool Unit := do
  if !v.noVerify then do
    let (_, block2) ←
      readRam chip (toUnsigned v.opAddress) (toUnsigned v.opSize) arrays.block2
    if block.read 0 (toSize v.opSize) = block2.read 0 (toSize v.opSize) then print (.verified none)
    -- `i` is set to what the comparison with 0 says.
    else print (.verifyFail 0)

/-- Erase the block, and see that it was erased. -/
def eraseOrExit : Tool Unit := do
  if (← eraseFlashBlock chip arrays (toUnsigned v.opAddress) (toUnsigned v.opSize)) ≤ 0 then do
    print (.eraseError none)
    exit 0

/-- `if (ramIn !=NULL)`. -/
def write (block : Mem Byte) : Tool Unit :=
  match v.ramIn with
  | none => pure ()
  | some name =>
      if !v.confirmDelete then do
        print .confirm
        exit 0
      else do
        let file ← ramInput files name v.opSize
        let block := block.write 0 (file.take (toSize v.opSize))
        let block := if v.lgcChecksumFix then fixLgcChecksum v.opSize block else block
        eraseOrExit chip arrays v
        let status ← writeRam chip (toUnsigned v.opAddress) (toUnsigned v.opSize) block
        if status ≤ 0 then print (.error status)
        verify chip arrays v block

/-- `if (opErase)`. -/
def erase : Tool Unit := ramErase v (eraseOrExit chip arrays v)

/-- `if (opExecute)`. -/
def execute : Tool Unit := do
  if v.opExecute then do
    let _ ← call chip (.writeWord 0 cmdExecuteFlash)

/-- `main`, behind the options. -/
def run : Tool Unit := do
  let block ← ramOpen chip arrays v
  let block ← dump chip files v block
  write chip files arrays v block
  erase chip arrays v
  execute chip v

end

/-- `main`. -/
def main (chip : Chip) (files : Files) (arrays : Arrays) (cmd : CommandLine RamOption) :
    Tool Unit :=
  if cmd.argc = 1 then exit 1
  else
    match ramOptions table cmd.opts .init with
    | none => exit 0
    | some v => run chip files arrays v

/-- What a run of `main` has done. -/
def r2j240flasher (chip : Chip) (files : Files) (arrays : Arrays) (cmd : CommandLine RamOption) :
    ToolState :=
  endState (main chip files arrays cmd) .init

/-- The calls that erase a block or write to the RAM. -/
def destroys : Call → Bool
  | .writeBlock command _ => command == cmdEraseBlock
  | .transfer (command :: _) _ => command == cmdWriteRam
  | _ => false

end R2j240

end Smbusb
