import Smbusb.Host.I2cdev
import Smbusb.Host.Options

/-!
# smbusb_scan

`main` of `smbusb_scan.c`, over any driver.

*The command line.*  `getopt_long` is outside: the options are the list of what it
returns, each with its `optarg`.  They are handled in order, and the last of an option that
is given twice holds.

*The skip map.*  `skipMap` has 256 entries, and the numbers of the command line index it
unchecked.  So it is a memory without bounds, whose cells outside of the array hold what
else is on the stack, and `oob` says whether one of them was touched.

*The loops.*  `scanLoop` is the loop of all three modes.  It keeps the probes it made with
their results (`Probe`), from which the printed lines follow (`Probe.line`).  `i` never
passes `INT_MAX` unless `end` is `INT_MAX`, where the source overflows.
-/

namespace Smbusb

open Logic

/-! ## Numbers -/

/-- The number at the beginning of a string, in base 16. -/
def hexNumber (str : List Char) : Int :=
  let str := str.dropWhile isSpace
  let (negative, str) := match str with
    | '-' :: rest => (true, rest)
    | '+' :: rest => (false, rest)
    | _ => (false, str)
  let str := match str with
    | '0' :: x :: rest => if (x = 'x' ∨ x = 'X') ∧ digitsOf 16 rest ≠ [] then rest else str
    | _ => str
  let value : Nat := (digitsOf 16 str).foldl (fun n d => n * 16 + d) 0
  if negative then -value else value

/-- `strtol(str, NULL, 16)`, with a `long` of 64 bits. -/
def strtol (str : List Char) : Int := max (-2 ^ 63) (min (2 ^ 63 - 1) (hexNumber str))

/-- A `long` stored into an `int`. -/
def toInt (n : Int) : Int := (BitVec.ofInt 32 n).toInt

/-! ## Options -/

/-- `scanMode`. -/
inductive ScanMode where
  | address
  | command
  | commandWrite
deriving DecidableEq, Repr

/-- The options, as `getopt_long` returns them. -/
inductive ScanOption where
  | device (optarg : List Char)
  | address
  | command (optarg : List Char)
  | commandWrite (optarg : List Char)
  | begin (optarg : List Char)
  | endAt (optarg : List Char)
  | skip (optarg : List Char)
  | help
deriving DecidableEq, Repr

/-- The locals of `main` that the options set. -/
structure ScanVars where
  skipMap : Int → Byte
  /-- Whether `skipMap` was touched outside of its 256 entries. -/
  oob : Bool
  device : List Char
  address : Int
  /-- No value is the 0 of the source. -/
  scanMode : Option ScanMode
  start : Int
  /-- `end`. -/
  endAt : Int

/-- An index `skipMap` does not have. -/
def Outside (i : Int) : Prop := i < 0 ∨ 255 < i

instance (i : Int) : Decidable (Outside i) := inferInstanceAs (Decidable (_ ∨ _))

/-- The locals at the start; `stack` is what is around `skipMap`. -/
def ScanVars.init (stack : Int → Byte) : ScanVars where
  skipMap i := if Outside i then stack i else 0
  oob := false
  device := "fx2lp://vid=0x04b4,pid=0x8613".toList
  address := 0
  scanMode := none
  start := 0
  endAt := 0xFF

/-- `skipMap[strtol(token,NULL,16)] = 0xFF`. -/
def skipToken (v : ScanVars) (token : List Char) : ScanVars :=
  let i := strtol token
  { v with skipMap := Function.update v.skipMap i 0xFF, oob := v.oob || decide (Outside i) }

/-- The `switch` over an option; no result is `exit`. -/
def scanOption (v : ScanVars) : ScanOption → Option ScanVars
  | .device optarg => some { v with device := optarg }
  | .address => some { v with scanMode := some .address }
  | .command optarg =>
      some { v with scanMode := some .command, address := toInt (strtol optarg) }
  | .commandWrite optarg =>
      some { v with scanMode := some .commandWrite, address := toInt (strtol optarg) }
  -- `strsep` gives an empty token between two commas, and one for an empty list.
  | .skip optarg => some ((optarg.splitOn ',').foldl skipToken v)
  | .begin optarg => some { v with start := toInt (strtol optarg) }
  | .endAt optarg => some { v with endAt := toInt (strtol optarg) }
  | .help => none

/-- The loop over the options. -/
def scanOptions : List ScanOption → ScanVars → Option ScanVars
  | [], v => some v
  | opt :: opts, v => (scanOption v opt).bind (scanOptions opts)

/-! ## Scanning -/

/-- What `smbusb_scan` uses of a driver.  A call that hangs has no result. -/
structure ScanDriver (S : Type) where
  testAddressAck : UInt → S → Option (Int × S)
  testCommandAck : UInt → Byte → S → Option (Int × S)
  testCommandWrite : UInt → Byte → S → Option (Int × S)

/-- A probe and its result. -/
structure Probe where
  value : Int
  status : Int
deriving DecidableEq, Repr

/-- A line of the output of `SCAN_ADDRESS` and `SCAN_COMMAND`. -/
inductive ScanLine where
  | error (i status : Int)
  | ack (i : Int)
deriving DecidableEq, Repr

/-- What is printed for a probe. -/
def Probe.line (p : Probe) : Option ScanLine :=
  if p.status < 0 then some (.error p.value p.status)
  else if p.status = 0xFF then some (.ack p.value)
  else none

/-- What a scan has done: its probes, oldest first, and whether `skipMap` was touched
outside of its entries. -/
structure ScanRun where
  probes : List Probe
  oob : Bool
deriving DecidableEq, Repr

variable {S : Type}

/-- `for(i=start;i<=end;i++)` over so many turns. -/
def scanLoop (skipMap : Int → Byte) (test : Int → S → Option (Int × S)) :
    Nat → Int → ScanRun → S → Option (ScanRun × S)
  | 0, _, run, s => some (run, s)
  | turns + 1, i, run, s =>
      let run := { run with oob := run.oob || decide (Outside i) }
      if skipMap i ≠ 0xFF then do
        let (status, s) ← test i s
        scanLoop skipMap test turns (i + 1) { run with probes := run.probes ++ [⟨i, status⟩] } s
      else scanLoop skipMap test turns (i + 1) run s

/-- The turns from `start` to `end`. -/
def scanTurns (start endAt : Int) : Nat := (endAt + 1 - start).toNat

/-- The scan, behind the options. -/
def scanWith (drv : ScanDriver S) (v : ScanVars) (s : S) : Option (ScanRun × S) :=
  let turns := scanTurns v.start v.endAt
  match v.scanMode with
  | some .address =>
      -- The addresses of the EEPROM with the configuration of the FX2.
      let skipMap := Function.update (Function.update v.skipMap 0xA0 0xFF) 0xA1 0xFF
      scanLoop skipMap (fun i => drv.testAddressAck (BitVec.ofInt 32 i)) turns v.start ⟨[], v.oob⟩ s
  | some .command =>
      scanLoop v.skipMap
        (fun i => drv.testCommandAck (BitVec.ofInt 32 v.address) (BitVec.ofInt 8 i))
        turns v.start ⟨[], v.oob⟩ s
  | some .commandWrite =>
      scanLoop v.skipMap
        (fun i => drv.testCommandWrite (BitVec.ofInt 32 v.address) (BitVec.ofInt 8 i))
        turns v.start ⟨[], v.oob⟩ s
  | none => some (⟨[], v.oob⟩, s)

/-- `main`, with a device that is opened; no result is `exit`, or a call that hangs. -/
def scan (drv : ScanDriver S) (stack : Int → Byte) (opts : List ScanOption) (s : S) :
    Option (ScanRun × S) :=
  if opts = [] then none
  else (scanOptions opts (ScanVars.init stack)).bind fun v => scanWith drv v s

end Smbusb
