import Smbusb.Logic.Memory
import Smbusb.Tools.Bq8030

/-!
# What the two Renesas flashers share

`smbusb_r2j240flasher` and `smbusb_m37512flasher` have the same options, apart from two and from
the presets, open the device in the same way, and work on one range of addresses.

*The command line.*  As for the bq8030, `getopt_long` is outside, and a table says what it returns
for an option.  The tables of the two tools differ, so it is an argument of `ramOptions`.

*Arrays.*  `block` and `block2` of `main`, and the arrays of the functions it calls, hold anything
before they are written (`Arrays`).  An array is a memory without an end: what lies behind the
0x1FFFF bytes of `block` is not modelled.

*Files.*  A run may write the file it has just dumped (`Files.after`).
-/

namespace Smbusb

open Logic Prog Tool

/-! ## Integers -/

/-- An `int` that becomes an `unsigned int`. -/
def toUnsigned (n : Int) : UInt := BitVec.ofInt 32 n

/-- An `int` that becomes a `size_t`. -/
def toSize (n : Int) : Nat := (BitVec.ofInt 64 n).toNat

/-! ## Options -/

/-- The options. -/
inductive RamOption where
  | device (optarg : List Char)
  | confirmDelete
  | noVerify
  | execute
  | erase
  | fixLgcStaticChecksum
  | address (optarg : List Char)
  | dump (optarg : List Char)
  | size (optarg : List Char)
  | write (optarg : List Char)
  | preset (optarg : List Char)
  /-- `-a`. -/
  | a (optarg : List Char)
  /-- `-d`. -/
  | d (optarg : List Char)
  /-- `-s`. -/
  | s (optarg : List Char)
  /-- `-w`. -/
  | w (optarg : List Char)
  /-- `-p`. -/
  | p (optarg : List Char)
  /-- `-e`, which takes no argument. -/
  | e
  /-- Anything else. -/
  | unknown
deriving DecidableEq, Repr

/-- The variables the options set. -/
structure RamVars where
  ramIn : Option (List Char)
  ramOut : Option (List Char)
  noVerify : Bool
  confirmDelete : Bool
  lgcChecksumFix : Bool
  opExecute : Bool
  opErase : Bool
  opAddress : Int
  opSize : Int
  device : List Char
deriving DecidableEq, Repr

def RamVars.init : RamVars where
  ramIn := none
  ramOut := none
  noVerify := false
  confirmDelete := false
  lgcChecksumFix := false
  opExecute := false
  opErase := false
  opAddress := -1
  opSize := -1
  device := "fx2lp://vid=0x04b4,pid=0x8613".toList

/-- What `getopt_long` returns for an option, and its `optarg`. -/
inductive RamCode where
  /-- 0: a flag was set. -/
  | flag (set : RamVars → RamVars)
  | device (optarg : List Char)
  /-- A letter. -/
  | letter (c : Char) (optarg : List Char)

/-- What a tool makes of the options: `long_options` with the short options, and the address and
size of the presets. -/
structure RamTable where
  code : RamOption → RamCode
  preset : List Char → Option (Int × Int)

/-- The switch over the options.  After `?` the tool exits; `-e` goes to `default`, where `abort`
is not called. -/
def ramOption (table : RamTable) (v : RamVars) (o : RamOption) : Option RamVars :=
  match table.code o with
  | .flag set => some (set v)
  | .device optarg => some { v with device := optarg }
  | .letter c optarg =>
      if c = 'a' then some { v with opAddress := toInt (strtol optarg) }
      else if c = 'd' then some { v with ramOut := some optarg }
      else if c = 'w' then some { v with ramIn := some optarg }
      else if c = 'p' then
        match table.preset optarg with
        | some (address, size) => some { v with opAddress := address, opSize := size }
        | none => some v
      else if c = 's' then some { v with opSize := toInt (strtol optarg) }
      else if c = '?' then none
      else some v

def ramOptions (table : RamTable) : List RamOption → RamVars → Option RamVars
  | [], v => some v
  | o :: opts, v => (ramOption table v o).bind (ramOptions table opts)

/-! ## Arrays and files -/

/-- What the arrays hold before they are written. -/
structure Arrays where
  block : Mem Byte
  block2 : Mem Byte
  /-- The array of a function that is called after these calls. -/
  scratch : List Call → Mem Byte

/-- The files as they are when these were written. -/
def Files.after (files : Files) (saved : List (List Char × List Byte)) : Files where
  input name := ((saved.find? (·.1 = name)).map (·.2)).or (files.input name)
  output := files.output

/-! ## The beginning of a run -/

section

variable (chip : Chip) (arrays : Arrays) (v : RamVars)

/-- Open the device, and see that the chip does not run its firmware.  The answer is left in
`block`. -/
def ramOpen : Tool (Mem Byte) := do
  if (← call chip (.openDevice v.device)) < 0 then do
    print .openError
    exit 0
  else do
    let _ ← call chip (.enablePec 0)
    let block := arrays.block.write 0 (List.replicate 255 0)
    let answer ← Tool.readBlock chip cmdSbsChemistry
    if answer.status = 4 then do
      print .runningFirmware
      exit 1
    else return block.write 0 answer.data

end

/-- Open the input file. -/
def ramInput (files : Files) (name : List Char) (size : Int) : Tool (List Byte) := do
  openSized (files.after (← get).saved) name size

/-- `if (opErase)`. -/
def ramErase (v : RamVars) (eraseOrExit : Tool Unit) : Tool Unit := do
  if v.opErase then do
    if !v.confirmDelete then do
      print .confirm
      exit 0
    else eraseOrExit

end Smbusb
