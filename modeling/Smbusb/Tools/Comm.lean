import Smbusb.Logic.Frame
import Smbusb.Logic.Memory
import Smbusb.Host.HexDigits
import Smbusb.Tools.Flasher

/-!
# smbusb_comm

`main` of `smbusb_comm.c`, over any driver.

*The command line.*  `getopt_long` is outside, as in the other tools: the options are the list of
what it returns.

*Arrays.*  A string in `block` is the list of its characters, and `block2` and what else is not
initialised hold anything (`CommJunk`).  `oob` says whether the end of an array was passed; the
model then goes on as if the array had been longer.

*Output.*  What the tool prints is left out.  A run ends with its exit code.
-/

namespace Smbusb

open Logic Prog

/-! ## Options -/

/-- The options. -/
inductive CommOption where
  | device (optarg : List Char)
  | noPec
  | address (optarg : List Char)
  | command (optarg : List Char)
  | write (optarg : List Char)
  | blockWrite
  | read (optarg : List Char)
  | nullWrite
  | verbose
  /-- Anything else. -/
  | unknown
deriving DecidableEq, Repr

/-- `op`. -/
inductive CommOp where
  | none
  | write
  | read
  | null
deriving DecidableEq, Repr

/-- The variables the options set. -/
structure CommVars where
  device : List Char
  noPec : Bool
  op : CommOp
  opAddress : Int
  opCommand : Int
  opReadLen : Int
  block : List Char
  forceBlockWrite : Bool
deriving DecidableEq, Repr

/-- What is not initialised. -/
structure CommJunk where
  opAddress : Int
  block : List Char
  block2 : Mem Char

def CommVars.init (junk : CommJunk) : CommVars where
  device := "fx2lp://vid=0x04b4,pid=0x8613".toList
  noPec := false
  op := .none
  opAddress := junk.opAddress
  opCommand := -1
  opReadLen := 0
  block := junk.block
  forceBlockWrite := false

/-! ## Programs -/

/-- A call of the library, with the address it is for. -/
inductive CommCall where
  | openDevice (device : List Char)
  | enablePec (state : Byte)
  | readByte (address : UInt) (command : Byte)
  | readWord (address : UInt) (command : Byte)
  | readBlock (address : UInt) (command : Byte)
  | sendByte (address : UInt) (command : Byte)
  | writeByte (address : UInt) (command data : Byte)
  | writeWord (address : UInt) (command : Byte) (data : UInt)
  | writeBlock (address : UInt) (command : Byte) (data : List Byte)
deriving DecidableEq, Repr

/-- What a run has done so far. -/
structure CommState where
  sent : List CommCall
  /-- The end of an array was passed. -/
  oob : Bool
deriving DecidableEq, Repr

def CommState.init : CommState := ⟨[], false⟩

/-- A part of the tool.  A jump is an `exit`. -/
abbrev Comm := Prog Int CommState

/-- The value the last of the calls returns. -/
abbrev CommAnswers := List CommCall → Int

namespace Comm

variable {A : Type}

/-- `exit(code)`. -/
def exit (code : Int) : Comm A := goto code

/-- Something is read or stored at an index of an array of this size, at most. -/
def touch (index size : Nat) : Comm Unit :=
  modify fun s => { s with oob := s.oob || decide (size ≤ index) }

/-- A call with a status. -/
def call (answers : CommAnswers) (c : CommCall) : Comm Int := do
  modify fun s => { s with sent := s.sent ++ [c] }
  return answers (← get).sent

/-! ## The options -/

/-- The size of `block` and of `block2`. -/
def blockSize : Nat := 1024

/-- The number at the beginning of a string, in base 10. -/
def decimalNumber (str : List Char) : Int :=
  let str := str.dropWhile isSpace
  let (negative, str) := match str with
    | '-' :: rest => (true, rest)
    | '+' :: rest => (false, rest)
    | _ => (false, str)
  let value : Nat := digitsValue 10 (digitsOf 10 str)
  if negative then -value else value

/-- `strtol(str, NULL, 10)`, with a `long` of 64 bits. -/
def strtolDecimal (str : List Char) : Int := max (-2 ^ 63) (min (2 ^ 63 - 1) (decimalNumber str))

/-- The switch over the options. -/
def option (v : CommVars) : CommOption → Comm CommVars
  | .device optarg => return { v with device := optarg }
  | .noPec => return { v with noPec := true }
  | .address optarg => return { v with opAddress := toInt (strtol optarg) }
  | .command optarg => return { v with opCommand := toInt (strtol optarg) }
  | .write optarg => do
      -- `strcpy`, with the NUL at the end.
      touch optarg.length blockSize
      return { v with op := .write, block := optarg }
  | .blockWrite => return { v with forceBlockWrite := true }
  | .read optarg => return { v with op := .read, opReadLen := toInt (strtolDecimal optarg) }
  | .nullWrite => return { v with op := .null }
  | .verbose => return v
  | .unknown => exit 0

def options : List CommOption → CommVars → Comm CommVars
  | [], v => return v
  | o :: opts, v => do options opts (← option v o)

/-! ## Writing -/

/-- `strncpy(block2, str, 254)`: what is missing is filled up with NULs. -/
def strncpyLen : Nat := 254

def strncpy (block2 : Mem Char) (str : List Char) : Mem Char :=
  block2.write 0 (str.take strncpyLen ++ List.replicate (strncpyLen - str.length) nul)

/-- The string in an array of `n` characters. -/
def arrayString (m : Mem Char) (n : Nat) : List Char := (m.read 0 n).takeWhile (· != nul)

/-- The prefix `0x` is taken off. -/
def stripPrefix (block2 : Mem Char) (block : List Char) : Comm (List Char) :=
  match block with
  | '0' :: x :: rest =>
      if x = 'x' ∨ x = 'X' then do
        let str := arrayString (strncpy block2 rest) blockSize
        touch str.length blockSize
        return str
      else return block
  | _ => return block

/-- `tolower`, in the C locale. -/
def tolower (c : Char) : Char :=
  if 65 ≤ c.toNat ∧ c.toNat ≤ 90 then Char.ofNat (c.toNat + 32) else c

/-- The check of a character in lower case. -/
def isHex (blockCheck : Char) : Bool :=
  decide (48 ≤ blockCheck.toNat ∧ blockCheck.toNat ≤ 57) ||
    decide (97 ≤ blockCheck.toNat ∧ blockCheck.toNat ≤ 102)

/-- `for (i=0;i<strlen(block);i++)`: `block` in lower case. -/
def lowerBlock : List Char → Comm (List Char)
  | [] => return []
  | c :: block => do
      let blockCheck := tolower c
      if !isHex blockCheck then exit (-5)
      else return blockCheck :: (← lowerBlock block)

/-- `hn` and `ln`. -/
def nibble (c : Char) : UInt :=
  BitVec.ofInt 32 (if '9'.toNat < c.toNat then (c.toNat : Int) - 'a'.toNat + 10
    else (c.toNat : Int) - '0'.toNat)

/-- One byte of `hex_decode`. -/
def hexByte (a b : Char) : Byte := (nibble a <<< 4 ||| nibble b).setWidth 8

/-- `hex_decode`.  Behind an odd digit it takes the NUL for one. -/
def hexDecode : List Char → List Byte
  | [] => []
  | [a] => [hexByte a nul]
  | a :: b :: rest => hexByte a b :: hexDecode rest

/-- The size of `buf`. -/
def bufSize : Nat := 256

section

variable (answers : CommAnswers) (junk : CommJunk) (v : CommVars)

/-- `if (status >=0)`, at the end of an operation. -/
def finish {A : Type} (status : Int) : Comm A := if 0 ≤ status then exit 0 else exit status

/-- What is done with the digits in `block`; `status` is that of the opening. -/
def sendHex (status : Int) (block : List Char) : Comm Unit := do
  let block ← lowerBlock block
  let buf := hexDecode block
  if 0 < buf.length then touch (buf.length - 1) bufSize
  let len := block.length / 2
  let address := BitVec.ofInt 32 v.opAddress
  let command := BitVec.ofInt 8 v.opCommand
  if 2 < len ∨ v.forceBlockWrite then do
    -- The length is cut to an `unsigned char`.
    finish (← call answers (.writeBlock address command (buf.take (len % 256))))
  else if len = 1 then do
    finish (← call answers (.writeByte address command (buf.getD 0 0)))
  else if len = 2 then do
    let j : UInt := (buf.getD 1 0 ++ buf.getD 0 0).setWidth 32
    let j := (j >>> 8 ||| j <<< 8) &&& 0xFFFF
    finish (← call answers (.writeWord address command j))
  else finish status

/-- `if (op==1)`. -/
def write (status : Int) : Comm Unit :=
  if 0 < v.block.length then
    if v.block.length % 2 ≠ 0 then exit (-5)
    else do sendHex answers v status (← stripPrefix junk.block2 v.block)
  else return ()

/-- `if (op==2)`.  What is read is printed. -/
def read : Comm Unit := do
  let address := BitVec.ofInt 32 v.opAddress
  let command := BitVec.ofInt 8 v.opCommand
  if v.opReadLen = 1 then do finish (← call answers (.readByte address command))
  else if v.opReadLen = 2 then do finish (← call answers (.readWord address command))
  else do finish (← call answers (.readBlock address command))

/-- `main`, behind the options. -/
def run : Comm Unit := do
  let status ← call answers (.openDevice v.device)
  if status < 0 then exit (-1)
  else do
    let _ ← call answers (.enablePec (if v.noPec then 0 else 1))
    if v.opAddress = -1 ∨ v.opCommand = -1 then exit (-5)
    else if v.opReadLen = 0 ∧ v.block = [] then exit (-5)
    else
      match v.op with
      | .write => write answers junk v status
      | .null => do
          let _ ← call answers
            (.sendByte (BitVec.ofInt 32 v.opAddress) (BitVec.ofInt 8 v.opCommand))
      | .read => read answers v
      | .none => return ()

end

/-- `main`. -/
def main (answers : CommAnswers) (junk : CommJunk) (cmd : CommandLine CommOption) : Comm Unit := do
  if cmd.argc = 1 then exit 1
  else do run answers junk (← options cmd.opts (.init junk))

end Comm

end Smbusb
