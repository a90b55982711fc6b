import Smbusb.Logic.Frame
import Smbusb.Host.BlockAnswer
import Smbusb.Tools.Scan

/-!
# What the flashers share

`smbusb_bq8030flasher`, `smbusb_r2j240flasher` and `smbusb_m37512flasher` open a device, send
commands to the chip at the address 0x16, and read and write files.

*The chip.*  A `Chip` answers each call of the library, as a function of all calls made so
far.  So a statement for every chip is one for every behaviour of the chip, the bus and the
driver.  `SMBReadBlock` gives a status and stores bytes, whatever the status is (`BlockAnswer`).
Only `readFlash` is asked whether they fit: elsewhere a store past the end of an array is not
followed.

*Files.*  `Files` says what the tool finds when it opens a file.  A file is its bytes.  Its
size is kept in an `int`.

*Runs.*  A tool is a program over the calls made and the lines printed (`ToolState`).  A jump
is an `exit`.  Of the lines, those that tell how a run went are kept.
-/

namespace Smbusb

open Logic Prog

/-! ## Calls -/

/-- A call of the library.  The address is 0x16 in all of them. -/
inductive Call where
  | openDevice (device : List Char)
  | enablePec (state : Byte)
  | readByte (command : Byte)
  | readWord (command : Byte)
  | readBlock (command : Byte)
  | sendByte (command : Byte)
  | writeWord (command : Byte) (data : Word)
  | writeBlock (command : Byte) (data : List Byte)
  /-- `SMBTransfer` of a message that sends these bytes, and, if there is a second one, of one
  that receives so many. -/
  | transfer (send : List Byte) (receive : Option Nat)
deriving DecidableEq, Repr

/-- The answers of a chip to the last of the calls. -/
structure Chip where
  /-- The value returned. -/
  status : List Call → Int
  /-- `errno`. -/
  errno : List Call → Int
  /-- The answer to `SMBReadBlock`. -/
  block : List Call → BlockAnswer
  /-- What `SMBTransfer` stores for a message that receives. -/
  received : List Call → List Byte

/-! ## Files -/

/-- The files of a run. -/
structure Files where
  /-- What `fopen(name, "rb")` finds. -/
  input : List Char → Option (List Byte)
  /-- Whether `fopen(name, "wb")` succeeds. -/
  output : List Char → Bool

/-! ## Programs -/

/-- The memories of a chip that has two. -/
inductive FlashMemory where
  | program
  | eeprom
deriving DecidableEq, Repr

/-- A line that tells how a run went. -/
inductive Line where
  /-- `Error Opening SMBusb`. -/
  | openError
  /-- `Chip is running firmware`. -/
  | runningFirmware
  /-- `Error communicating with the Boot ROM`, for any other reason. -/
  | noBootRom
  /-- `Write and read during the same run is not supported!`. -/
  | bothWays
  /-- `If you're sure add --confirm-delete and try again.`. -/
  | confirm
  /-- `Address or size missing for operation.`. -/
  | missing
  /-- `Size must be multiple of 16`. -/
  | unaligned
  /-- `Error opening output file`. -/
  | outputError
  /-- `Error opening input file`. -/
  | inputError
  /-- `File size does not match ...`. -/
  | sizeError
  /-- `Error:` and a status. -/
  | error (status : Int)
  /-- `ERROR!` behind an erase, and a status where it is printed. -/
  | eraseError (status : Option Int)
  /-- A block, or a memory, that is not what was written. -/
  | verifyFail (block : Nat)
  /-- `Verified OK!`.  Where the chip has two memories, behind the flashing of this one. -/
  | verified (memory : Option FlashMemory)
deriving DecidableEq, Repr

/-- What a run has done so far. -/
structure ToolState where
  sent : List Call
  out : List Line
  /-- What was written to files. -/
  saved : List (List Char × List Byte)

def ToolState.init : ToolState := ⟨[], [], []⟩

/-- A part of a tool. -/
abbrev Tool := Prog Int ToolState

namespace Tool

variable {A : Type}

/-- `exit(code)`. -/
def exit (code : Int) : Tool A := goto code

def print (line : Line) : Tool Unit := modify fun s => { s with out := s.out ++ [line] }

/-- `fwrite` to the file of this name. -/
def save (name : List Char) (data : List Byte) : Tool Unit :=
  modify fun s => { s with saved := s.saved ++ [(name, data)] }

section

variable (chip : Chip)

/-- A call with a status. -/
def call (c : Call) : Tool Int := do
  modify fun s => { s with sent := s.sent ++ [c] }
  return chip.status (← get).sent

/-- `SMBReadBlock`. -/
def readBlock (command : Byte) : Tool BlockAnswer := do
  modify fun s => { s with sent := s.sent ++ [.readBlock command] }
  return chip.block (← get).sent

end

/-- Open an input file whose size has to be `size`.  The size found is cut to an `int`. -/
def openSized (files : Files) (name : List Char) (size : Int) : Tool (List Byte) :=
  match files.input name with
  | none => do
      print .inputError
      exit 3
  | some file =>
      if toInt file.length ≠ size then do
        print .sizeError
        exit 4
      else return file

/-! ## Weakest preconditions of the primitives -/

section

variable {Q : A → ToolState → Prop} {E : Int → ToolState → Prop} {s : ToolState} (chip : Chip)

@[simp] theorem wp_exit (code : Int) : wp (exit code : Tool A) Q E s ↔ E code s := Iff.rfl

@[simp] theorem wp_print {Q : Unit → ToolState → Prop} (line : Line) :
    wp (print line) Q E s ↔ Q () { s with out := s.out ++ [line] } := Iff.rfl

@[simp] theorem wp_save {Q : Unit → ToolState → Prop} (name : List Char) (data : List Byte) :
    wp (save name data) Q E s ↔ Q () { s with saved := s.saved ++ [(name, data)] } := Iff.rfl

@[simp] theorem wp_call {Q : Int → ToolState → Prop} (c : Call) :
    wp (call chip c) Q E s ↔
      Q (chip.status (s.sent ++ [c])) { s with sent := s.sent ++ [c] } := Iff.rfl

@[simp] theorem wp_readBlock {Q : BlockAnswer → ToolState → Prop} (command : Byte) :
    wp (readBlock chip command) Q E s ↔ Q (chip.block (s.sent ++ [.readBlock command]))
      { s with sent := s.sent ++ [.readBlock command] } := Iff.rfl

/-- An input file is found and has the size, or the tool ends. -/
theorem wp_openSized {Q : List Byte → ToolState → Prop} (files : Files) (name : List Char)
    (size : Int) : wp (openSized files name size) Q E s ↔
      match files.input name with
      | none => E 3 { s with out := s.out ++ [.inputError] }
      | some file => if toInt file.length ≠ size then E 4 { s with out := s.out ++ [.sizeError] }
          else Q file s := by
  rw [openSized]
  split
  · rfl
  · rw [wp_ite]
    rfl

end

end Tool

/-- A command line: `argc`, and the options as `getopt_long` returns them. -/
structure CommandLine (O : Type) where
  argc : Nat
  opts : List O

end Smbusb
