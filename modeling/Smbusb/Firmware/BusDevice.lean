import Smbusb.Logic.Objects
import Smbusb.Firmware.Sending

/-!
# A device on the bus

The firmware is one end of the bus.  Here is the other end: an SMBus device that keeps the
protocol, as a target.

*What it is for.*  A `BusDevice` has an address and states `D`.  It knows a format for each of its
commands; a write of a command changes its state, and a read of a command gives data and may
change it.  As an `Object` (`BusDevice.object`) it knows no bus at all.

*What it does.*  A `Slave` is the device with what it has seen of a transaction, its phase.  It
takes the bytes of a frame one by one, and carries out a write when STOP comes behind a whole one,
with or without its packet error code.  A repeated START behind the command makes it a read: the
device works out its answer when it is addressed again, and sends it with its packet error code
behind it.  A byte it has no use for is not ACKed.

*The line.*  A `BusLine` is what the device does not decide: START may meet `BERR`, a byte may be
refused or lost, its answer may come late, and then the device may have taken it or not.  Bytes
that the device sends, and the STOP bit, show in time.

`BusDevice.target` is the device on the line.
-/

namespace Smbusb

open Logic

/-! ## Formats -/

/-- How a command is used. -/
inductive Format where
  | send
  | byte
  | word
  | block
deriving DecidableEq, Repr

namespace Format

/-- The data that can be written. -/
def Fits (data : List Byte) : Format → Prop
  | send => data = []
  | byte => data.length = 1
  | word => data.length = 2
  | block => data.length < 256

/-- The data that can be read.  `blocklen` of the firmware holds a count of up to 253. -/
def Answers (data : List Byte) : Format → Prop
  | send => data = []
  | byte => data.length = 1
  | word => data.length = 2
  | block => 1 ≤ data.length ∧ data.length ≤ 253

/-- The bytes of the data on the bus. -/
def encode (data : List Byte) : Format → List Byte
  | block => BitVec.ofNat 8 data.length :: data
  | _ => data

/-- The data of the bytes on the bus. -/
def decode (bs : List Byte) : Format → List Byte
  | block => bs.drop 1
  | _ => bs

/-- Whether bytes are missing behind these. -/
def more (bs : List Byte) : Format → Bool
  | send => false
  | byte => bs.length < 1
  | word => bs.length < 2
  | block => bs.length < (bs.headD 0).toNat + 1

variable {f : Format} {data : List Byte}

theorem decode_encode (f : Format) (data : List Byte) : f.decode (f.encode data) = data := by
  cases f <;> rfl

/-- The bytes of data that fits are whole. -/
theorem more_encode (h : f.Fits data) : f.more (f.encode data) = false := by
  cases f with
  | send => rfl
  | byte => simp only [more, encode, show data.length = 1 from h, Nat.lt_irrefl, decide_false]
  | word => simp only [more, encode, show data.length = 2 from h, Nat.lt_irrefl, decide_false]
  | block =>
      have hlen : data.length < 256 := h
      simp only [more, encode, List.headD_cons, List.length_cons, BitVec.toNat_ofNat,
        Nat.mod_eq_of_lt hlen, Nat.lt_irrefl, decide_false]

/-- A beginning of them is not. -/
theorem more_of_prefix (h : f.Fits data) {p rest : List Byte} {b : Byte}
    (hp : f.encode data = p ++ b :: rest) : f.more p = true := by
  have hlen := congrArg List.length hp
  rw [List.length_append, List.length_cons] at hlen
  cases f with
  | send =>
      have hnil : data.length = 0 := congrArg List.length h
      simp only [encode] at hlen
      omega
  | byte =>
      have hone : data.length = 1 := h
      simp only [encode] at hlen
      simp only [more, decide_eq_true_eq]
      omega
  | word =>
      have htwo : data.length = 2 := h
      simp only [encode] at hlen
      simp only [more, decide_eq_true_eq]
      omega
  | block =>
      have hbyte : data.length < 256 := h
      simp only [encode, List.length_cons] at hlen
      simp only [more, decide_eq_true_eq]
      cases p with
      | nil => exact Nat.succ_pos _
      | cons n p =>
          obtain ⟨rfl, -⟩ := List.cons.inj hp
          simp only [List.length_cons, List.headD_cons, BitVec.toNat_ofNat,
            Nat.mod_eq_of_lt hbyte] at hlen ⊢
          omega

end Format

/-! ## Devices -/

/-- A device, in terms of whole transactions. -/
structure BusDevice (D : Type) where
  /-- The address for writing.  The one for reading is the next. -/
  addr : Byte
  /-- The format of a command, if it is one of the device. -/
  format : Byte → Option Format
  /-- A write of a command. -/
  write : Byte → List Byte → D → D
  /-- A read of a command. -/
  read : Byte → D → List Byte × D
  /-- What is read has the format of the command: a block has from 1 to 253 bytes. -/
  answers : ∀ {cmd : Byte} {f : Format} (d : D), format cmd = some f → f.Answers (read cmd d).1

/-- A transaction. -/
inductive BusOp where
  | write (cmd : Byte) (data : List Byte)
  | read (cmd : Byte)
deriving DecidableEq, Repr

/-- How far a transaction has come. -/
inductive Phase where
  /-- The device takes no part. -/
  | idle
  /-- START was seen. -/
  | begun
  /-- The address was taken. -/
  | addressed
  /-- The command was taken, and these bytes behind it. -/
  | writing (cmd : Byte) (f : Format) (bs : List Byte)
  /-- The packet error code was taken behind them. -/
  | checked (cmd : Byte) (f : Format) (bs : List Byte)
  /-- START was seen again, behind the command. -/
  | restarted (cmd : Byte) (f : Format)
  /-- These bytes are to be sent. -/
  | sending (bs : List Byte)
deriving DecidableEq, Repr

/-- A device that takes part in a transaction. -/
structure Slave (D : Type) where
  phase : Phase
  mem : D

/-- What a device does not decide. -/
structure BusLine where
  /-- Whether `BERR` shows after START. -/
  berr : List Event → Bool
  /-- Whether a byte is answered with `BERR`. -/
  garbles : List Event → Bool
  /-- Whether a byte is not ACKed. -/
  refuses : List Event → Bool
  /-- The ticks until the answer to a byte shows. -/
  delay : List Event → Nat
  /-- Whether a byte was taken whose answer shows too late. -/
  took : List Event → Bool
  /-- The ticks until a byte arrives. -/
  recvDelay : List Event → Nat
  stopOver : List Event → Nat
  stopShows : List Event → Nat
  recvTimely : ∀ tr, recvDelay tr ≤ i2cTimeout
  stopTimely : ∀ tr, stopShows tr ≤ i2cTimeout

/-- Nothing gets in the way. -/
structure BusLine.Calm (line : BusLine) : Prop where
  berr : ∀ tr, line.berr tr = false
  garbles : ∀ tr, line.garbles tr = false
  refuses : ∀ tr, line.refuses tr = false
  delay : ∀ tr, line.delay tr ≤ i2cTimeout

/-- A line on which nothing takes any time. -/
def BusLine.quick : BusLine where
  berr _ := false
  garbles _ := false
  refuses _ := false
  delay _ := 0
  took _ := false
  recvDelay _ := 0
  stopOver _ := 0
  stopShows _ := 0
  recvTimely _ := Nat.zero_le _
  stopTimely _ := Nat.zero_le _

theorem BusLine.calm_quick : BusLine.quick.Calm :=
  ⟨fun _ => rfl, fun _ => rfl, fun _ => rfl, fun _ => Nat.zero_le _⟩

namespace BusDevice

variable {D : Type} (dev : BusDevice D)

/-- The device without a bus. -/
def object : Object BusOp (List Byte) D
  | .write cmd data, d => ([], dev.write cmd data d)
  | .read cmd, d => dev.read cmd d

/-- The packet error code of an answer. -/
def answerPec (cmd : Byte) (bs : List Byte) : Byte := crc8 (dev.addr :: cmd :: (dev.addr + 1) :: bs)

/-- What is sent for a read. -/
def reply (cmd : Byte) (f : Format) (d : D) : List Byte :=
  f.encode (dev.read cmd d).1 ++ [dev.answerPec cmd (f.encode (dev.read cmd d).1)]

/-- A byte is taken, or is of no use. -/
def take (b : Byte) (σ : Slave D) : Slave D :=
  match σ.phase with
  | .begun => ⟨if b = dev.addr then .addressed else .idle, σ.mem⟩
  | .addressed => ⟨match dev.format b with | some f => .writing b f [] | none => .idle, σ.mem⟩
  | .writing cmd f bs =>
      ⟨if f.more bs then .writing cmd f (bs ++ [b])
        else if b = crc8 (dev.addr :: cmd :: bs) then .checked cmd f bs else .idle, σ.mem⟩
  | .restarted cmd f =>
      if b = dev.addr + 1 then ⟨.sending (dev.reply cmd f σ.mem), (dev.read cmd σ.mem).2⟩
      else ⟨.idle, σ.mem⟩
  | _ => ⟨.idle, σ.mem⟩

/-- STOP ends the transaction, and a write that is whole is carried out. -/
def stop (σ : Slave D) : Slave D :=
  match σ.phase with
  | .writing cmd f bs =>
      ⟨.idle, if f.more bs then σ.mem else dev.write cmd (f.decode bs) σ.mem⟩
  | .checked cmd f bs => ⟨.idle, dev.write cmd (f.decode bs) σ.mem⟩
  | _ => ⟨.idle, σ.mem⟩

/-- The device takes no part any more. -/
def drop (σ : Slave D) : Slave D := ⟨.idle, σ.mem⟩

/-- The next byte that is sent.  The line is high when there is none. -/
def nextByte (σ : Slave D) : Byte :=
  match σ.phase with
  | .sending bs => bs.headD 0xFF
  | _ => 0xFF

/-- What the device makes of an event behind others. -/
def see (line : BusLine) (past : List Event) (e : Event) (σ : Slave D) : Slave D :=
  match e with
  | .start berr => ⟨if berr then .idle else .begun, σ.mem⟩
  | .restart =>
      match σ.phase with
      | .writing cmd f [] => ⟨.restarted cmd f, σ.mem⟩
      | _ => ⟨.idle, σ.mem⟩
  | .stop => dev.stop σ
  | .lastrd => σ
  | .fetch _ => σ
  | .sent b (some .ack) => dev.take b σ
  | .sent _ (some _) => ⟨.idle, σ.mem⟩
  | .sent b none => if line.took past then dev.take b σ else ⟨.idle, σ.mem⟩
  | .recv _ _ =>
      match σ.phase with
      | .sending bs => ⟨.sending bs.tail, σ.mem⟩
      | _ => σ
  | .lost => σ

/-- What the device makes of events behind others. -/
def watch (line : BusLine) : List Event → Slave D → List Event → Slave D
  | _, σ, [] => σ
  | past, σ, e :: es => watch line (past ++ [e]) (dev.see line past e σ) es

/-- The device after a trace. -/
def after (line : BusLine) (d : D) (tr : List Event) : Slave D := dev.watch line [] ⟨.idle, d⟩ tr

/-- The device on the line. -/
def target (line : BusLine) (d : D) : Target where
  start := line.berr
  out tr b :=
    (line.delay tr, if line.garbles tr then .berr
      else if line.refuses tr ∨ (dev.take b (dev.after line d tr)).phase = .idle then .nack
      else .ack)
  recv tr := (line.recvDelay tr, nextByte (dev.after line d tr))
  stopOver := line.stopOver
  stopShows := line.stopShows

variable {dev} {line : BusLine} {d : D}

theorem watch_append (past : List Event) (σ : Slave D) (es es' : List Event) :
    dev.watch line past σ (es ++ es') =
      dev.watch line (past ++ es) (dev.watch line past σ es) es' := by
  induction es generalizing past σ with
  | nil => rw [List.append_nil]; rfl
  | cons e es ih =>
      rw [List.cons_append, watch, ih, watch, List.append_assoc]
      rfl

theorem after_snoc (tr : List Event) (e : Event) :
    dev.after line d (tr ++ [e]) = dev.see line tr e (dev.after line d tr) := by
  rw [after, watch_append, List.nil_append]
  rfl

@[simp] theorem stop_drop (σ : Slave D) : dev.stop (drop σ) = drop σ := rfl

@[simp] theorem drop_mem (σ : Slave D) : (drop σ).mem = σ.mem := rfl

@[simp] theorem drop_phase (σ : Slave D) : (drop σ).phase = .idle := rfl

theorem stop_phase (σ : Slave D) : (dev.stop σ).phase = .idle := by
  obtain ⟨phase, mem⟩ := σ
  cases phase <;> rfl

theorem stop_stop (σ : Slave D) : dev.stop (dev.stop σ) = dev.stop σ := by
  obtain ⟨phase, mem⟩ := σ
  cases phase <;> rfl

theorem take_of_idle {σ : Slave D} (h : σ.phase = .idle) (b : Byte) : dev.take b σ = drop σ := by
  rw [take, h]
  rfl

end BusDevice

end Smbusb
