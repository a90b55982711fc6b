import Smbusb.Logic.Program
import Smbusb.Logic.Memory

/-!
# The I2C controller and the firmware's I2C functions

The firmware drives the bus through two registers of the FX2, `I2CS` and `I2DAT`.
`I2c` is what the I2C functions of the firmware read and change: the tick counter
`count`, the byte `I2DAT` holds, the `LASTRD` bit, and the list of what was done on
the bus so far, oldest first.

*The target.*  Everything the firmware does not decide is a `Target`: what the bus
and the device on it do next, as functions of all that was done before.  So a
statement for every target is a statement for every behaviour of the bus, one that
depends on the bytes sent so far included.

*Waiting.*  A busy loop on a status bit resets `count` and gives up when `count`
has passed `I2C_TIMEOUT`.  A target says after how many ticks the bit shows.  The
loop sees it in time exactly when that is at most `I2C_TIMEOUT`.

*Reading.*  A read of `I2DAT` returns the last byte received and starts the
reception of the next one, unless STOP is set.  The firmware always waits for the
byte it started, so the reception is logged at the end of the wait (`recv`), with
the byte and with whether the master NACKs it.  It does that when `LASTRD` was set
before the read that started the byte.

The names are those of `smbusb_firmware.c`.
-/

namespace Smbusb

open Logic

/-- `BYTE`. -/
abbrev Byte := BitVec 8

/-- `WORD`. -/
abbrev Word := BitVec 16

/-- `I2C_MAX_RETRIES`. -/
def i2cMaxRetries : Nat := 5

/-- `I2C_TIMEOUT`. -/
def i2cTimeout : Nat := 10

/-! ## The bus -/

/-- The status bits after a byte was sent: `BERR`, or `ACK`, or neither. -/
inductive Answer where
  | ack
  | nack
  | berr
deriving DecidableEq, Repr

/-- What happens on the bus and at the registers of the controller. -/
inductive Event where
  /-- START was set, and whether `BERR` showed. -/
  | start (berr : Bool)
  /-- START was set again inside a transaction. -/
  | restart
  /-- STOP was set. -/
  | stop
  /-- `LASTRD` was set. -/
  | lastrd
  /-- A byte was sent, and its answer; no answer if `DONE` did not show in time. -/
  | sent (b : Byte) (a : Option Answer)
  /-- `I2DAT` was read and gave this byte. -/
  | fetch (b : Byte)
  /-- A byte was received, and whether the master NACKed it. -/
  | recv (b : Byte) (nacked : Bool)
  /-- A byte was started and did not arrive in time. -/
  | lost
deriving DecidableEq, Repr

/-- The bus and the device on it, as functions of what was done so far. -/
structure Target where
  /-- Whether `BERR` shows after START. -/
  start : List Event → Bool
  /-- The ticks until `DONE` shows after a byte was sent, and the status bits then. -/
  out : List Event → Byte → Nat × Answer
  /-- The ticks until `DONE` shows after a reception was started, and the byte. -/
  recv : List Event → Nat × Byte
  /-- The ticks until a STOP is over, which clears the `STOP` bit. -/
  stopOver : List Event → Nat
  /-- The ticks until the `STOP` bit reads as set after it was set. -/
  stopShows : List Event → Nat

/-- The part of the state the I2C functions work on. -/
structure I2c where
  /-- The tick counter. -/
  count : Word
  /-- The byte in `I2DAT`. -/
  i2dat : Byte
  /-- The `LASTRD` bit. -/
  lastrdBit : Bool
  /-- What was done so far, oldest first. -/
  trace : List Event

namespace I2c

/-- Add an event to the trace. -/
def log (s : I2c) (e : Event) : I2c := { s with trace := s.trace ++ [e] }

/-- `I2CS |= bmLASTRD`. -/
def setLastrd (s : I2c) : I2c := { s.log .lastrd with lastrdBit := true }

/-- Read `I2DAT`; the value read is `s.i2dat`. -/
def fetch (s : I2c) : I2c := s.log (.fetch s.i2dat)

/-- `count=0; while (!bit) if (count>I2C_TIMEOUT) ...`, for a bit that shows after
`delay` ticks.  Says whether the bit was seen. -/
def await (delay : Nat) (s : I2c) : Bool × I2c :=
  if delay ≤ i2cTimeout then (true, { s with count := BitVec.ofNat 16 delay })
  else (false, { s with count := BitVec.ofNat 16 (i2cTimeout + 1) })

/-- Wait for the byte whose reception was started. -/
def awaitByte (T : Target) (s : I2c) : Bool × I2c :=
  let (delay, b) := T.recv s.trace
  match s.await delay with
  | (true, s) =>
      (true, { s with i2dat := b, lastrdBit := false, trace := s.trace ++ [.recv b s.lastrdBit] })
  | (false, s) => (false, s.log .lost)

end I2c

/-! ## The I2C functions -/

section Functions

variable (T : Target)

/-- `i2c_start` with so many tries left. -/
def i2cStartTries : Nat → I2c → Bool × I2c
  | 0, s => (false, s)
  | tries + 1, s =>
      if T.start s.trace then i2cStartTries tries (s.log (.start true))
      else (true, s.log (.start false))

/-- `i2c_start`. -/
def i2cStart (s : I2c) : Bool × I2c := i2cStartTries T i2cMaxRetries s

/-- `i2c_restart`. -/
def i2cRestart (s : I2c) : I2c := s.log .restart

/-- `i2c_stop`: the wait has no result. -/
def i2cStop (s : I2c) : I2c := ((s.log .stop).await (T.stopOver s.trace)).2

/-- `i2c_byteout`: says whether the byte was ACKed. -/
def i2cByteout (outb : Byte) (s : I2c) : Bool × I2c :=
  let (delay, a) := T.out s.trace outb
  match s.await delay with
  | (true, s) => (a = .ack, s.log (.sent outb (some a)))
  | (false, s) => (false, i2cStop T (s.log (.sent outb none)))

/-- The second half of `i2c_bytein`, from `if (is_last)` on.  A byte that does not
arrive in time is the byte 0, the `return FALSE` of the source. -/
def i2cByteinRest (isBeforeLast isLast : Bool) (s : I2c) : Byte × I2c :=
  let s := if isLast then s.log .stop else s
  let s := if isBeforeLast then s.setLastrd else s
  let b := s.i2dat
  let s := s.fetch
  -- After the last byte the firmware waits for the STOP bit and starts no byte.
  match if isLast then s.await (T.stopShows s.trace) else s.awaitByte T with
  | (true, s) => (b, s)
  | (false, s) => (0, i2cStop T s)

/-- `i2c_bytein`. -/
def i2cBytein (isFirst isSingle isBeforeLast isLast : Bool) (s : I2c) : Byte × I2c :=
  let s := if isSingle then s.setLastrd else s
  -- The first read of `I2DAT` returns nothing of use and starts the first byte.
  match if isFirst then s.fetch.awaitByte T else (true, s) with
  | (true, s) => i2cByteinRest T isBeforeLast isLast s
  | (false, s) => (0, i2cStop T s)

end Functions

end Smbusb
