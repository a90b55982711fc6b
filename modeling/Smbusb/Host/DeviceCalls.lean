import Smbusb.Firmware.DeviceReads
import Smbusb.Host.BlockFailures
import Smbusb.Host.ReadBlock
import Smbusb.Host.WriteBlock

/-!
# Calls to a device

A program, the driver, USB, the firmware, the bus and a device on it, put together: what the calls
of the program do to the device.

*Transactions.*  `Transaction` lists the calls that read or write a command of a device, and
`Transaction.run` says what the caller gets: data, or an error.

*Requests.*  A request that the firmware handles is a call of the device (`serve_write`,
`serve_read`).  If it gets lost on the way, or its status on the way back, the caller sees an error
(`out_cases`, `inp_cases`), and it still is one.

*Calls.*  `transaction_called` says so of every transaction: a result is the result of the device,
whose operation was carried out once; behind an error it was carried out once or not at all.
`Manageable` is what that takes.  The firmware keeps a block that comes or goes in several
transfers, so that a transfer that gets lost leaves a part of it to the next call; short blocks
need no such care.
-/

namespace Smbusb

open Logic Fx2lp

/-! ## Transactions -/

/-- A call that reads or writes a command of a device. -/
inductive Transaction where
  | sendByte (command : Byte)
  | writeByte (command data : Byte)
  | writeWord (command : Byte) (data : UInt)
  | writeBlock (command : Byte) (data : List Byte)
  | readByte (command : Byte)
  | readWord (command : Byte)
  | readBlock (command : Byte)
deriving DecidableEq, Repr

/-- The two bytes of a word, the low one first. -/
def wordBytes (w : UInt) : List Byte := [w.setWidth 8, (w >>> 8).setWidth 8]

/-- A negative status is an error. -/
def outcome (status : Int) (data : List Byte) : Option (List Byte) :=
  if status < 0 then none else some data

namespace Transaction

def command : Transaction → Byte
  | sendByte command | writeByte command _ | writeWord command _ | writeBlock command _
  | readByte command | readWord command | readBlock command => command

/-- The format that the call takes its command to have. -/
def format : Transaction → Format
  | sendByte _ => .send
  | writeByte _ _ | readByte _ => .byte
  | writeWord _ _ | readWord _ => .word
  | writeBlock _ _ | readBlock _ => .block

/-- What the device is asked to do. -/
def op : Transaction → BusOp
  | sendByte command => .write command []
  | writeByte command data => .write command [data]
  | writeWord command data => .write command (wordBytes data)
  | writeBlock command data => .write command data
  | readByte command => .read command
  | readWord command => .read command
  | readBlock command => .read command

/-- What the caller gets.  A block read has fuel for as many turns as a count can announce
bytes. -/
def run {S : Type} (d : Device S) (address : UInt) (s : S) : Transaction →
    Option (List Byte) × S
  | sendByte command =>
      let (status, s) := Fx2lp.sendByte d address command s
      (outcome status [], s)
  | writeByte command data =>
      let (status, s) := Fx2lp.writeByte d address command data s
      (outcome status [], s)
  | writeWord command data =>
      let (status, s) := Fx2lp.writeWord d address command data s
      (outcome status [], s)
  | writeBlock command data =>
      let (status, s) :=
        Fx2lp.writeBlock d address command data (BitVec.ofNat 8 data.length) s
      (outcome status [], s)
  | readByte command =>
      let (status, s) := Fx2lp.readByte d address command s
      (outcome status [BitVec.ofInt 8 status], s)
  | readWord command =>
      let (status, s) := Fx2lp.readWord d address command s
      (outcome status (wordBytes (BitVec.ofInt 32 status)), s)
  | readBlock command =>
      match Fx2lp.readBlock d loopFuel address command (fun _ => 0) s with
      | (some (status, data), s) => (outcome status (data.read 0 status.toNat), s)
      | (none, s) => (none, s)

end Transaction

/-! ## Requests -/

theorem toByte_setWidth (b : Byte) : toByte (b.setWidth 16) = b := by
  rw [toByte, BitVec.setWidth_setWidth_of_le _ (by decide), BitVec.setWidth_eq]

theorem toByte_setupOf (address : UInt) (command : Byte) :
    toByte (setupOf address command).value = address.setWidth 8 := by
  rw [setupOf, toByte, BitVec.setWidth_setWidth_of_le _ (by decide)]

theorem Fx2.Empty.tick {s : Fx2} (h : s.Empty) (gap : Nat) : (s.tick gap).Empty := h

theorem Fx2.Empty.load {s : Fx2} (h : s.Empty) (data : List Byte) : (s.load data).Empty := h

theorem Fx2.Empty.idle {s : Fx2} (h : s.Empty) : s.Idle := by
  rw [Fx2.Idle, Fx2.expire_of_empty h.1, h.1, h.2]

theorem Fx2.Empty.of_cursors {s s' : Fx2} (h : s.Empty) (hsame : s'.cursors = s.cursors) :
    s'.Empty := by
  rw [empty_iff] at h ⊢
  exact hsame.trans h

theorem serve_cursors (T : Target) {cmd : Byte} (hcmd : ¬ MovesCursors cmd) (setup : Setup)
    (s : Fx2) : (serve T cmd setup s).2.cursors = s.cursors := by
  rw [serve_endState]
  exact keeps_cursors T loopFuel setup hcmd s

section

variable {D : Type} {dev : BusDevice D} {line : BusLine} {d : D} {way : Nat → Delivery}
  {σ : Slave D} {s : Fx2} {address : UInt}

/-- The frame of a write request is the write of its command, with or without its packet error
code. -/
theorem frame_tail (kind : WriteKind) (pec : Bool) (command : Byte) {f : Format}
    (haddr : address.setWidth 8 = dev.addr) {data : List Byte}
    (hpayload : kind.payload data = f.encode data) :
    ∃ tail, BusDevice.Tail dev command (f.encode data) tail ∧
      kind.frame pec (setupOf address command) data =
        dev.addr :: command :: f.encode data ++ tail := by
  have hsetup : toByte (setupOf address command).index = command := toByte_setWidth command
  rw [WriteKind.frame]
  simp only [toByte_setupOf, haddr, hsetup, hpayload]
  split
  · exact ⟨_, .pec, rfl⟩
  · exact ⟨_, .none, rfl⟩

/-- A `SEND_BYTE` whose START fails. -/
theorem sendByte_noStart {T : Target} (smbAddr smbCmd : Word)
    (hstart : (i2cStart T s.toI2c).1 = false) :
    Handler.sendByte T smbAddr smbCmd s =
      .ok false { s with toI2c := (i2cStart T s.toI2c).2 } := by
  have h : Prog.wp (Handler.sendByte T smbAddr smbCmd)
      (fun ok s' => ok = false ∧ s' = { s with toI2c := (i2cStart T s.toI2c).2 })
      (fun _ _ => False) s := by
    simp only [Handler.sendByte, Prog.wp_bind, Fw.wp_i2c, Prog.wp_ite]
    rw [if_neg (Bool.eq_false_iff.mp hstart)]
    exact ⟨rfl, rfl⟩
  obtain ⟨ok, s', hrun, rfl, rfl⟩ := Prog.exists_run_of_wp h
  exact hrun

/-- A write request that comes in one transfer sends its frame, and keeps the cursors.  A
`SEND_BYTE` whose START fails sets no STOP behind it, which the device does not notice. -/
theorem serve_frame (kind : WriteKind) (hkind : kind ≠ .sequence) (setup : Setup)
    {data : List Byte} (hempty : s.Empty) (hwrites : s.Writes data kind)
    (hσ : dev.after line d s.trace = σ) :
    let r := sendFrame (dev.target line d) (kind.frame s.pecEnabled setup data) s.toI2c
    ∃ s', serve (dev.target line d) kind.code setup s = (r.1, s') ∧
      dev.after line d s'.trace = dev.after line d r.2.trace ∧ s'.Empty := by
  intro r
  have hother : ∀ {cmd : Byte}, cmd ≠ smbReadBlock → cmd ≠ smbWriteBlock →
      cmd ≠ smbResetInterface → ¬ MovesCursors cmd :=
    fun h₁ h₂ h₃ h => h.elim h₁ fun h => h.elim h₂ h₃
  have hkept : ¬ MovesCursors kind.code → ∀ {ok s'},
      serve (dev.target line d) kind.code setup s = (ok, s') → s'.Empty := by
    intro hcmd ok s' hserve
    have hcursors := serve_cursors (dev.target line d) hcmd setup s
    rw [hserve] at hcursors
    exact hempty.of_cursors hcursors
  cases kind with
  | sendByte =>
      obtain rfl : data = [] := hwrites
      by_cases hstart : (i2cStart (dev.target line d) s.toI2c).1 = true
      · obtain ⟨n, hrun⟩ := sendByte_run (T := dev.target line d) setup.value setup.index
          (Prod.ext hstart rfl : i2cStart _ s.toI2c = (true, _))
        have hserve := serve_of_run smbSendByte hrun
        exact ⟨_, hserve, rfl, hkept (hother (by decide) (by decide) (by decide)) hserve⟩
      · have hdrop := (BusDevice.after_start s.toI2c hσ).2 (Bool.eq_false_iff.mpr hstart)
        have hrun := sendByte_noStart setup.value setup.index (Bool.eq_false_iff.mpr hstart)
        have hserve := serve_of_run smbSendByte hrun
        have hr : r = (false, i2cStop (dev.target line d)
            (i2cStart (dev.target line d) s.toI2c).2) := by
          simp only [r, sendFrame, if_neg hstart]
        rw [hr]
        refine ⟨_, hserve, ?_, hkept (hother (by decide) (by decide) (by decide)) hserve⟩
        rw [BusDevice.after_stop, hdrop]
        rfl
  | writeByte =>
      obtain rfl : data = s.ep0buf.read 0 1 := hwrites
      have hrun : Handler.writeByte (dev.target line d) setup.value setup.index s =
          .ok r.1 { s with toI2c := r.2 } := writeByte_run s
      have hserve := serve_of_run smbWriteByte hrun
      exact ⟨_, hserve, rfl, hkept (hother (by decide) (by decide) (by decide)) hserve⟩
  | writeWord =>
      obtain rfl : data = s.ep0buf.read 0 2 := hwrites
      have hrun : Handler.writeWord (dev.target line d) setup.value setup.index s =
          .ok r.1 { s with toI2c := r.2 } := writeWord_run s
      have hserve := serve_of_run smbWriteWord hrun
      exact ⟨_, hserve, rfl, hkept (hother (by decide) (by decide) (by decide)) hserve⟩
  | block =>
      obtain ⟨hidle, hshort, hcount, hdata⟩ := hwrites
      obtain ⟨o, -, -, hrun⟩ := writeBlock_sends (dev.target line d) loopFuel setup.value
        setup.index (Nat.le_refl _) s hidle (by omega)
      have hbyte : s.ep0buf 0 = BitVec.ofNat 8 data.length := by
        rw [← hcount, BitVec.ofNat_toNat, BitVec.setWidth_eq]
      rw [hcount, ← hdata, hbyte, ← frame_eq_blockFrame .block WriteKind.noConfusion _ setup rfl]
        at hrun
      refine ⟨_, serve_of_run smbWriteBlock hrun, rfl, ?_⟩
      rw [Fx2.expire_of_empty hempty.1]
      exact hempty
  | sequence => exact absurd rfl hkind

/-- A write request to the device is a call of the device. -/
theorem serve_write (kind : WriteKind) (hkind : kind ≠ .sequence) {command : Byte} {f : Format}
    {data : List Byte} (haddr : address.setWidth 8 = dev.addr) (hcmd : dev.format command = some f)
    (hfits : f.Fits data) (hpayload : kind.payload data = f.encode data) (hempty : s.Empty)
    (hwrites : s.Writes data kind) (hσ : dev.after line d s.trace = σ) :
    ∃ ok s', serve (dev.target line d) kind.code (setupOf address command) s = (ok, s') ∧
      Called dev.object (.write command data) σ.mem (if ok then some [] else none)
        (dev.after line d s'.trace).mem ∧ s'.Empty ∧ (line.Calm → ok = true) := by
  obtain ⟨tail, htail, hframe⟩ := frame_tail kind s.pecEnabled command haddr hpayload
  obtain ⟨s', hserve, hafter, hkept⟩ :=
    serve_frame kind hkind (setupOf address command) hempty hwrites hσ
  rw [hframe] at hserve hafter
  obtain ⟨hcalled, -⟩ := BusDevice.sendFrame_called hcmd hfits htail s.toI2c hσ rfl
  exact ⟨_, s', hserve, by rw [hafter]; exact hcalled, hkept, fun hcalm =>
    BusDevice.calm_sendFrame hcalm _ (BusDevice.takeAll_whole hcmd hfits htail)⟩

/-- One to another address fails, and changes nothing. -/
theorem serve_write_elsewhere (kind : WriteKind) (hkind : kind ≠ .sequence) {command : Byte}
    {data : List Byte} (haddr : address.setWidth 8 ≠ dev.addr) (hempty : s.Empty)
    (hwrites : s.Writes data kind) (hσ : dev.after line d s.trace = σ) :
    ∃ s', serve (dev.target line d) kind.code (setupOf address command) s = (false, s') ∧
      (dev.after line d s'.trace).mem = σ.mem ∧ s'.Empty := by
  obtain ⟨s', hserve, hafter, hkept⟩ :=
    serve_frame kind hkind (setupOf address command) hempty hwrites hσ
  rw [← toByte_setupOf address command] at haddr
  obtain ⟨hno, hdrop⟩ := BusDevice.sendFrame_elsewhere haddr _ s.toI2c hσ rfl
  rw [WriteKind.frame] at hserve hafter
  simp only [List.cons_append] at hserve hafter
  exact ⟨s', by rw [hserve, hno], by rw [hafter, hdrop]; rfl, hkept⟩

/-! ## Read requests -/

/-- A fresh block read whose count is at most 63 keeps the cursors. -/
theorem readBlock_short_empty {T : Target} {setup : Setup} (hempty : s.Empty)
    (hshort : ∀ b, addressRead T setup.value setup.index s.toI2c = (some true, b) →
      (countCall T b).1.toNat ≤ 63) {ok : Bool} {s' : Fx2}
    (hserve : serve T smbReadBlock setup s = (ok, s')) : s'.Empty := by
  have hcursors := readBlock_cursors T setup.value setup.index (Nat.le_refl loopFuel) hempty.idle
  have hend : (serve T smbReadBlock setup s).2 =
      Prog.endState (Handler.readBlock T loopFuel setup.value setup.index) s :=
    serve_endState T smbReadBlock setup s
  rw [← hend, hserve] at hcursors
  rw [empty_iff, hcursors]
  have hnone : s.expire.cursors = (0, 0) := by
    rw [Fx2.expire_of_empty hempty.1]
    exact empty_iff.mp hempty
  rcases haddr : addressRead T setup.value setup.index s.toI2c with ⟨r, b⟩
  match r with
  | none => rwa [Fx2.freshCursors, haddr]
  | some false => rwa [Fx2.freshCursors, haddr]
  | some true =>
      rw [freshCursors_of_short haddr, hnone]
      intro hlong
      have := hlong.1
      have := hshort b haddr
      omega

/-- What a read request to the device comes to. -/
structure ReadServed (dev : BusDevice D) (line : BusLine) (d : D) (kind : ReadKind)
    (setup : Setup) (m : D) (s : Fx2) (ok : Bool) (s' : Fx2) : Prop where
  /-- It is a call of the device. -/
  called : Called dev.object (.read (toByte setup.index)) m
    (if ok then some (dev.read (toByte setup.index) m).1 else none)
    (dev.after line d s'.trace).mem
  /-- It succeeds when the device is addressed. -/
  ok_iff : ok = true ↔
    (addressRead (dev.target line d) setup.value setup.index s.toI2c).1 = some true
  reply : ok = true →
    s'.reply 255 = (kind.format.encode (dev.read (toByte setup.index) m).1).take 64
  /-- Nothing is kept behind a failure, or of what the reply holds. -/
  empty : ok = false ∨ (kind = .block → (dev.read (toByte setup.index) m).1.length ≤ 63) →
    s'.Empty
  long : kind = .block → ok = true →
    BlockReady (dev.replyStream (toByte setup.index) .block m)
      (dev.read (toByte setup.index) m).1.length s s'

theorem serve_read (kind : ReadKind) {setup : Setup} (haddr : toByte setup.value = dev.addr)
    (hcmd : dev.format (toByte setup.index) = some kind.format) (hempty : s.Empty)
    (hσ : dev.after line d s.trace = σ) :
    ∃ ok s', serve (dev.target line d) kind.code setup s = (ok, s') ∧
      ReadServed dev line d kind setup σ.mem s ok s' := by
  obtain ⟨ok, s', hrun, hend⟩ := readRequest_ends (dev.target line d) (Nat.le_refl loopFuel) kind
    setup fun _ => hempty.idle
  have hserve := serve_of_run kind.code hrun
  obtain ⟨-, hcases⟩ := BusDevice.readEnd_cases haddr hcmd hσ hend
  refine ⟨ok, s', hserve, ?_, ?_, ?_, ?_, ?_⟩
  · rcases hcases with ⟨rfl, -, hcalled, -⟩ | ⟨rfl, -, hafter, -⟩
    · rw [if_neg Bool.false_ne_true]
      exact hcalled
    · rw [if_pos rfl, hafter]
      exact .returned
  · rcases hcases with ⟨rfl, hno, -⟩ | ⟨rfl, hyes, -⟩
    · exact iff_of_false Bool.false_ne_true hno
    · exact iff_of_true rfl hyes
  · intro hok
    rcases hcases with ⟨rfl, -⟩ | ⟨-, -, -, hreply⟩
    · exact Bool.noConfusion hok
    · exact hreply
  · intro hshort
    have hkept : ¬ MovesCursors kind.code → s'.Empty := by
      intro hother
      have hcursors := serve_cursors (dev.target line d) hother setup s
      rw [hserve] at hcursors
      exact hempty.of_cursors hcursors
    cases kind with
    | byte => exact hkept (by unfold MovesCursors; decide)
    | word => exact hkept (by unfold MovesCursors; decide)
    | block =>
        refine readBlock_short_empty hempty (fun b hb => ?_) hserve
        have hsent := (BusDevice.after_addressRead haddr hcmd Format.noConfusion s.toI2c hσ hb).2.2
          rfl
        rw [BusDevice.countCall_device hsent, BitVec.toNat_ofNat]
        rcases hshort with rfl | hshort
        · rcases hcases with ⟨-, hno, -⟩ | ⟨hyes, -⟩
          · exact absurd (by rw [hb]) hno
          · exact Bool.noConfusion hyes
        · have := hshort rfl
          omega
  · rintro rfl hok
    obtain ⟨ok', s'', hrun', hready⟩ :=
      BusDevice.readBlock_device (Nat.le_refl loopFuel) haddr hcmd hempty.idle hσ
    have hsame := hrun.symm.trans hrun'
    injection hsame with hokeq hseq
    subst hokeq hseq
    exact hready hok

/-- A read request to another address fails, and changes nothing. -/
theorem serve_read_elsewhere (kind : ReadKind) {setup : Setup}
    (haddr : toByte setup.value ≠ dev.addr) (hempty : s.Empty) (hσ : dev.after line d s.trace = σ) :
    ∃ s', serve (dev.target line d) kind.code setup s = (false, s') ∧
      (dev.after line d s'.trace).mem = σ.mem ∧ s'.Empty := by
  obtain ⟨ok, s', hrun, hend⟩ := readRequest_ends (dev.target line d) (Nat.le_refl loopFuel) kind
    setup fun _ => hempty.idle
  have hserve := serve_of_run kind.code hrun
  obtain ⟨rfl, hdrop⟩ := BusDevice.readEnd_elsewhere haddr hσ hend
  refine ⟨s', hserve, by rw [hdrop]; rfl, ?_⟩
  have hkept : ¬ MovesCursors kind.code → s'.Empty := by
    intro hother
    have hcursors := serve_cursors (dev.target line d) hother setup s
    rw [hserve] at hcursors
    exact hempty.of_cursors hcursors
  cases kind with
  | byte => exact hkept (by unfold MovesCursors; decide)
  | word => exact hkept (by unfold MovesCursors; decide)
  | block =>
      refine readBlock_short_empty hempty (fun b hb => ?_) hserve
      exact absurd rfl (BusDevice.addressRead_elsewhere haddr s.toI2c hσ hb).1

/-! ## Transfers -/

/-- The memory of the device. -/
def Fx2.memOf (s : Fx2) (dev : BusDevice D) (line : BusLine) (d : D) : D :=
  (dev.after line d s.trace).mem

/-- An OUT transfer: an error, or the request succeeded. -/
theorem out_cases {T : Target} {cmd : Byte} {setup : Setup} {data : List Byte} {l l' : Link}
    {ok : Bool} {s' : Fx2}
    (hserve : serve T cmd setup ((l.fx2.tick (way l.sent).gap).load data) = (ok, s'))
    {status : Int} (hout : (usb T way).out cmd setup data l = (status, l')) :
    (status < 0 ∧ (l'.fx2 = l.fx2.tick (way l.sent).gap ∨ l'.fx2 = s') ∧
        ((way l.sent).fate = .delivered → ok = false)) ∨
      (ok = true ∧ status = data.length ∧ l'.fx2 = s') := by
  cases hfate : (way l.sent).fate with
  | lost e =>
      simp only [usb, hfate, Prod.mk.injEq] at hout
      obtain ⟨rfl, rfl⟩ := hout
      exact .inl ⟨Int.negSucc_lt_zero e, .inl rfl, Fate.noConfusion⟩
  | unacked e =>
      simp only [usb, hfate, hserve, Prod.mk.injEq] at hout
      obtain ⟨rfl, rfl⟩ := hout
      exact .inl ⟨Int.negSucc_lt_zero e, .inr rfl, Fate.noConfusion⟩
  | delivered =>
      simp only [usb, hfate, hserve, Prod.mk.injEq] at hout
      obtain ⟨rfl, rfl⟩ := hout
      cases ok with
      | true => exact .inr ⟨rfl, rfl, rfl⟩
      | false => exact .inl ⟨show libusbErrorPipe < 0 by decide, .inr rfl, fun _ => rfl⟩

/-- An IN transfer: an error, or the reply. -/
theorem inp_cases {T : Target} {cmd : Byte} {setup : Setup} {length : Nat} {l l' : Link}
    {ok : Bool} {s' : Fx2} (hserve : serve T cmd setup (l.fx2.tick (way l.sent).gap) = (ok, s'))
    {status : Int} {got : List Byte}
    (hinp : (usb T way).inp cmd setup length l = ((status, got), l')) :
    (status < 0 ∧ (l'.fx2 = l.fx2.tick (way l.sent).gap ∨ l'.fx2 = s') ∧
        ((way l.sent).fate = .delivered → ok = false)) ∨
      (ok = true ∧ status = (s'.reply length).length ∧ got = s'.reply length ∧ l'.fx2 = s') := by
  cases hfate : (way l.sent).fate with
  | lost e =>
      simp only [usb, hfate, Prod.mk.injEq] at hinp
      obtain ⟨⟨rfl, -⟩, rfl⟩ := hinp
      exact .inl ⟨Int.negSucc_lt_zero e, .inl rfl, Fate.noConfusion⟩
  | unacked e =>
      simp only [usb, hfate, hserve, Prod.mk.injEq] at hinp
      obtain ⟨⟨rfl, -⟩, rfl⟩ := hinp
      exact .inl ⟨Int.negSucc_lt_zero e, .inr rfl, Fate.noConfusion⟩
  | delivered =>
      simp only [usb, hfate, hserve, Prod.mk.injEq] at hinp
      obtain ⟨hanswer, rfl⟩ := hinp
      cases ok with
      | true =>
          obtain ⟨rfl, rfl⟩ := Prod.mk.inj hanswer
          exact .inr ⟨rfl, rfl, rfl, rfl⟩
      | false =>
          obtain ⟨rfl, -⟩ := Prod.mk.inj hanswer
          exact .inl ⟨show libusbErrorPipe < 0 by decide, .inr rfl, fun _ => rfl⟩

/-! ## Calls that write -/

/-- What a call has come to: it is a call of the device, and leaves nothing in the firmware. -/
structure CallDone (dev : BusDevice D) (line : BusLine) (d : D) (way : Nat → Delivery) (op : BusOp)
    (s : Fx2) (r : Option (List Byte)) (s' : Fx2) : Prop where
  called : Called dev.object op (s.memOf dev line d) r (s'.memOf dev line d)
  empty : s'.Empty
  /-- It succeeds when nothing gets in the way. -/
  succeeds : line.Calm → (∀ k, (way k).fate = .delivered) → r ≠ none

/-- A write in one transfer. -/
theorem out_done (kind : WriteKind) (hkind : kind ≠ .sequence) {command : Byte} {f : Format}
    {data sent : List Byte} (haddr : address.setWidth 8 = dev.addr)
    (hcmd : dev.format command = some f) (hfits : f.Fits data)
    (hpayload : kind.payload data = f.encode data) (hempty : s.Empty)
    (hwrites : ((s.tick (way 0).gap).load sent).Writes data kind) {status : Int} {l' : Link}
    (hout : (usb (dev.target line d) way).out kind.code (setupOf address command) sent ⟨s, 0⟩ =
      (status, l')) :
    CallDone dev line d way (.write command data) s (outcome status []) l'.fx2 ∧
      (status < 0 ∨ status = sent.length) := by
  have hσ : dev.after line d ((s.tick (way 0).gap).load sent).trace =
      dev.after line d s.trace := rfl
  obtain ⟨ok, s', hserve, hcalled, hkept, hcalm⟩ :=
    serve_write kind hkind haddr hcmd hfits hpayload ((hempty.tick (way 0).gap).load sent)
      hwrites hσ
  rcases out_cases (l := ⟨s, 0⟩) hserve hout with
    ⟨hneg, hend, hfails⟩ | ⟨rfl, hstatus, hend⟩
  · rw [outcome, if_pos hneg]
    refine ⟨⟨?_, ?_, fun hc hdel => ?_⟩, .inl hneg⟩
    · rcases hend with h | h <;> rw [h]
      · exact .missed
      · exact hcalled.failed
    · rcases hend with h | h <;> rw [h]
      · exact hempty.tick _
      · exact hkept
    · rw [hcalm hc] at hfails
      exact Bool.noConfusion (hfails (hdel 0))
  · have hpos : ¬ (sent.length : Int) < 0 := Int.not_lt.mpr (Int.natCast_nonneg _)
    rw [hstatus, outcome, if_neg hpos, hend]
    exact ⟨⟨hcalled, hkept, fun _ _ => Option.some_ne_none _⟩, .inr rfl⟩

theorem outcome_congr {a b : Int} (h : a < 0 ↔ b < 0) (data : List Byte) :
    outcome a data = outcome b data := by
  simp only [outcome, h]

/-- A status that is an error or a length, in other words. -/
theorem outcome_length {status : Int} {n : Nat} (h : status < 0 ∨ status = n) (k : Nat)
    (data : List Byte) :
    outcome (if status = n then (k : Int) else status) data = outcome status data := by
  refine outcome_congr ?_ data
  rcases h with h | h <;> split <;> omega

/-- A call that writes, with one transfer. -/
structure OneOut (t : Transaction) (kind : WriteKind) (data sent : List Byte) : Prop where
  op : t.op = .write t.command data
  noSequence : kind ≠ .sequence
  fits : t.format.Fits data
  payload : kind.payload data = t.format.encode data
  writes : ∀ {s : Fx2}, s.Empty → (s.load sent).Writes data kind
  run : ∀ {S : Type} (d : Device S) (address : UInt) {s s' : S} {status : Int},
    d.out kind.code (setupOf address t.command) sent s = (status, s') →
      (status < 0 ∨ status = sent.length) → t.run d address s = (outcome status [], s')

theorem oneOut_sendByte (command : Byte) : OneOut (.sendByte command) .sendByte [] [0] := by
  refine ⟨rfl, WriteKind.noConfusion, rfl, rfl, fun _ => rfl,
    fun d address s s' status hout _ => ?_⟩
  have hcall : Fx2lp.sendByte d address command s = (status, s') := hout
  simp only [Transaction.run, hcall]

theorem oneOut_writeByte (command b : Byte) :
    OneOut (.writeByte command b) .writeByte [b] [b] := by
  refine ⟨rfl, WriteKind.noConfusion, rfl, rfl, fun {s} _ => ?_,
    fun d address s s' status hout hstatus => ?_⟩
  · exact (Mem.read_write s.ep0buf 0 [b]).symm
  · have hcall : d.out smbWriteByte (setupOf address command) [b] s = (status, s') := hout
    have hsame := outcome_length (n := 1) hstatus 0 []
    rw [Nat.cast_one, Nat.cast_zero] at hsame
    simp only [Transaction.run, Fx2lp.writeByte, hcall, hsame]

theorem oneOut_writeWord (command : Byte) (w : UInt) :
    OneOut (.writeWord command w) .writeWord (wordBytes w) (wordBytes w) := by
  refine ⟨rfl, WriteKind.noConfusion, rfl, rfl, fun {s} _ => ?_,
    fun d address s s' status hout hstatus => ?_⟩
  · exact (Mem.read_write s.ep0buf 0 (wordBytes w)).symm
  · have hcall : d.out smbWriteWord (setupOf address command)
        [w.setWidth 8, (w >>> 8).setWidth 8] s = (status, s') := hout
    have hsame := outcome_length (n := 2) hstatus 0 []
    rw [Nat.cast_ofNat, Nat.cast_zero] at hsame
    simp only [Transaction.run, Fx2lp.writeWord, hcall, hsame]

theorem oneOut_writeBlock (command : Byte) {data : List Byte} (hlen : data.length ≤ 63) :
    OneOut (.writeBlock command data) .block data (BitVec.ofNat 8 data.length :: data) := by
  have hcount : (BitVec.ofNat 8 data.length).toNat = data.length := by
    rw [BitVec.toNat_ofNat]
    omega
  refine ⟨rfl, WriteKind.noConfusion, Nat.lt_of_le_of_lt hlen (by decide), rfl,
    fun {s} hempty => ⟨?_, hlen, ?_, ?_⟩, fun d address s s' status hout hstatus => ?_⟩
  · rw [Fx2.expire_of_empty (hempty.load _).1]
    exact hempty.1
  · exact (congrArg BitVec.toNat (Mem.write_cons_self s.ep0buf 0 _ data)).trans hcount
  · have hread := Mem.read_write_cons s.ep0buf 0 (BitVec.ofNat 8 data.length)
      (Nat.le_refl data.length)
    rw [List.take_length] at hread
    exact hread.symm
  · have hone : chunks 64 (BitVec.ofNat 8 data.length :: data) =
        [BitVec.ofNat 8 data.length :: data] :=
      chunks_last (Nat.succ_pos _) (Nat.succ_le_succ hlen)
    have hcall : d.out smbWriteBlock (setupOf address command)
        (BitVec.ofNat 8 data.length :: data) s = (status, s') := hout
    have hsame := outcome_length (n := data.length + 1) hstatus data.length []
    rw [← hsame]
    simp only [Transaction.run]
    rw [writeBlock_eq_sendChunks _ address command data _ _ hcount.symm, hone]
    simp only [sendChunks, hcall, List.length_cons, hcount]
    by_cases hwhole : status = (data.length + 1 : Nat)
    · rw [if_neg (not_not.mpr hwhole), if_pos hwhole]
    · rw [if_pos hwhole, if_neg hwhole]

/-- Such a call to the device. -/
theorem OneOut.done {t : Transaction} {kind : WriteKind} {data sent : List Byte}
    (hone : OneOut t kind data sent) (haddr : address.setWidth 8 = dev.addr)
    (hcmd : dev.format t.command = some t.format) (hempty : s.Empty) :
    CallDone dev line d way t.op s (t.run (usb (dev.target line d) way) address ⟨s, 0⟩).1
      (t.run (usb (dev.target line d) way) address ⟨s, 0⟩).2.fx2 := by
  rcases hout : (usb (dev.target line d) way).out kind.code (setupOf address t.command) sent ⟨s, 0⟩
    with ⟨status, l⟩
  obtain ⟨hdone, hstatus⟩ := out_done kind hone.noSequence haddr hcmd hone.fits hone.payload hempty
    (hone.writes (hempty.tick _)) hout
  rw [hone.run _ _ hout hstatus, hone.op]
  exact hdone

/-- Every transfer of a call is delivered, and in time. -/
structure Whole (way : Nat → Delivery) : Prop where
  delivered : ∀ k, (way k).fate = .delivered
  inTime : InTime way 4

theorem whole_all_zero : Whole (Delivery.all 0) := ⟨fun _ => rfl, inTime_all_zero 4⟩

/-- A block write, in chunks. -/
theorem run_writeBlock {S : Type} (d : Device S) (address : UInt) (command : Byte)
    {data : List Byte} (hlen : data.length < 256) (s : S) :
    (Transaction.writeBlock command data).run d address s =
      match sendChunks d (setupOf address command)
        (chunks 64 (BitVec.ofNat 8 data.length :: data)) s with
      | (.error status, s') => (outcome status [], s')
      | (.ok (), s') => (some [], s') := by
  have hcount : (BitVec.ofNat 8 data.length).toNat = data.length := by
    rw [BitVec.toNat_ofNat, Nat.mod_eq_of_lt hlen]
  simp only [Transaction.run]
  rw [writeBlock_eq_sendChunks _ address command data _ _ hcount.symm]
  generalize sendChunks d (setupOf address command)
    (chunks 64 (BitVec.ofNat 8 data.length :: data)) s = r
  obtain ⟨status | _, s'⟩ := r
  · rfl
  · simp only [outcome, if_neg (Int.not_lt.mpr (Int.natCast_nonneg _))]

/-- A block in several transfers. -/
theorem long_block_done {command : Byte} {data : List Byte} (hcalm : line.Calm) (hway : Whole way)
    (haddr : address.setWidth 8 = dev.addr) (hcmd : dev.format command = some .block)
    (hempty : s.Empty) (hlen : data.length ≤ tempSize) (h64 : data.length ≠ 64) :
    let r := (Transaction.writeBlock command data).run (usb (dev.target line d) way) address ⟨s, 0⟩
    CallDone dev line d way (.write command data) s r.1 r.2.fx2 := by
  have hbyte : data.length < 256 := Nat.lt_of_le_of_lt hlen (by decide)
  have hchunks : (chunks 64 (BitVec.ofNat 8 data.length :: data)).length ≤ 4 := by
    refine length_chunks_le (by decide) ?_
    rw [List.length_cons]
    exact Nat.succ_le_succ (hlen.trans (by decide))
  have hout := sendChunks_outcome (dev.target line d) (setupOf address command) data way
    (l := ⟨s, 0⟩) rfl hbyte h64
    (fun _ => by rw [Fx2.expire_of_empty (hempty.tick _).1]; exact hempty.1)
    fun k hk => hway.inTime k (by omega)
  have hrun := run_writeBlock (usb (dev.target line d) way) address command hbyte ⟨s, 0⟩
  rw [hrun]
  generalize sendChunks (usb (dev.target line d) way) (setupOf address command)
    (chunks 64 (BitVec.ofNat 8 data.length :: data)) ⟨s, 0⟩ = r at hout
  cases hout with
  | unsent _ hfate _ =>
      obtain ⟨k, hk⟩ := hfate
      exact absurd (hway.delivered k) hk
  | @sent res l b hstart hbus hok _ hnone _ =>
      obtain ⟨tail, htail, hframe⟩ :=
        frame_tail .block s.pecEnabled command haddr (show WriteKind.block.payload data =
          Format.block.encode data from rfl)
      have hsame : writeFrame s.pecEnabled (setupOf address command) data =
          WriteKind.block.frame s.pecEnabled (setupOf address command) data :=
        (frame_eq_blockFrame .block WriteKind.noConfusion _ _ rfl).symm
      have hσ : dev.after line d b.trace = dev.after line d s.trace := by rw [hstart]
      rw [hsame, hframe] at hbus hok hnone
      obtain ⟨hcalled, -⟩ := BusDevice.sendFrame_called hcmd hbyte htail b hσ rfl
      have hsent : (sendFrame (dev.target line d)
          (dev.addr :: command :: Format.block.encode data ++ tail) b).1 = true :=
        BusDevice.calm_sendFrame hcalm b (BusDevice.takeAll_whole hcmd hbyte htail)
      rw [hsent, if_pos rfl, ← hbus] at hcalled
      obtain rfl := hok hway.delivered hsent
      exact ⟨hcalled, hnone hempty.1 hempty.2 hsent, fun _ _ => Option.some_ne_none _⟩

/-! ## Calls that read -/

/-- A reply that is not cut. -/
theorem Fx2.reply_of_le {s : Fx2} {bs : List Byte} {n : Nat} (h : s.reply 255 = bs)
    (hn : bs.length ≤ n) : s.reply n = bs := by
  have hlt := s.ep0bcl.isLt
  have hlen : s.ep0bcl.toNat = bs.length := by
    rw [← h, Fx2.reply, Mem.length_read]
    omega
  rw [← h, Fx2.reply, Fx2.reply]
  congr 1
  omega

theorem leInt_byte (b : Byte) : leInt [b] = (b.toNat : Int) := by
  simp [leInt]

theorem leInt_word (lo hi : Byte) : leInt [lo, hi] = ((lo.toNat + 256 * hi.toNat : Nat) : Int) := by
  simp [leInt]

theorem wordBytes_leInt (lo hi : Byte) :
    wordBytes (BitVec.ofInt 32 (leInt [lo, hi])) = [lo, hi] := by
  have hlo := lo.isLt
  have hhi := hi.isLt
  rw [leInt_word, BitVec.ofInt_natCast, wordBytes]
  congr 1
  · apply BitVec.eq_of_toNat_eq
    rw [BitVec.toNat_setWidth, BitVec.toNat_ofNat]
    omega
  · congr 1
    apply BitVec.eq_of_toNat_eq
    rw [BitVec.toNat_setWidth, BitVec.toNat_ushiftRight, BitVec.toNat_ofNat,
      Nat.shiftRight_eq_div_pow]
    omega

/-- A read in one transfer. -/
theorem inp_done (kind : ReadKind) {command : Byte} {n : Nat}
    (haddr : address.setWidth 8 = dev.addr) (hcmd : dev.format command = some kind.format)
    (hempty : s.Empty) {bytes : List Byte}
    (hbytes : kind.format.encode (dev.read command (s.memOf dev line d)).1 = bytes)
    (hn : bytes.length ≤ n) (hn' : n ≤ 64) {status : Int} {got : List Byte} {l : Link}
    (hinp : (usb (dev.target line d) way).inp kind.code (setupOf address command) n ⟨s, 0⟩ =
      ((status, got), l)) :
    (status < 0 ∧ CallDone dev line d way (.read command) s none l.fx2) ∨
      (status = bytes.length ∧ got = bytes ∧ CallDone dev line d way (.read command) s
        (some (dev.read command (s.memOf dev line d)).1) l.fx2) := by
  have hindex : toByte (setupOf address command).index = command := toByte_setWidth command
  have hσ : dev.after line d (s.tick (way 0).gap).trace = dev.after line d s.trace := rfl
  obtain ⟨ok, s', hserve, hserved⟩ := serve_read kind
    ((toByte_setupOf address command).trans haddr) (hindex.symm ▸ hcmd)
    (hempty.tick (way 0).gap) hσ
  have hcalled := hserved.called
  have hreply : ok = true → s'.reply n = bytes := by
    intro hok
    have h := hserved.reply hok
    rw [hindex] at h
    have hlen : bytes.length ≤ 64 := hn.trans hn'
    have hall : (kind.format.encode (dev.read command (s.memOf dev line d)).1).take 64 = bytes := by
      rw [hbytes, List.take_of_length_le hlen]
    exact Fx2.reply_of_le (h.trans hall) hn
  have hshort : kind = .block →
      (dev.read command (s.memOf dev line d)).1.length ≤ 63 := by
    rintro rfl
    have hlen := congrArg List.length hbytes
    rw [ReadKind.format, Format.encode, List.length_cons] at hlen
    omega
  have hkept : s'.Empty := hserved.empty (.inr (by rw [hindex]; exact hshort))
  rw [hindex] at hcalled
  have hfirst : (line.Calm → ok = true) := fun hcalm => by
    rw [hserved.ok_iff]
    exact BusDevice.calm_addressRead hcalm ((toByte_setupOf address command).trans haddr)
      (hindex.symm ▸ hcmd) _
  rcases inp_cases (l := ⟨s, 0⟩) hserve hinp with
    ⟨hneg, hend, hfails⟩ | ⟨rfl, hstatus, hgot, hend⟩
  · refine .inl ⟨hneg, ?_, ?_, fun hcalm hdel => ?_⟩
    · rcases hend with h | h <;> rw [h]
      · exact .missed
      · exact hcalled.failed
    · rcases hend with h | h <;> rw [h]
      · exact hempty.tick _
      · exact hkept
    · rw [hfirst hcalm] at hfails
      exact Bool.noConfusion (hfails (hdel 0))
  · rw [hreply rfl] at hstatus hgot
    rw [hend]
    exact .inr ⟨hstatus, hgot, hcalled, hkept, fun _ _ => Option.some_ne_none _⟩

/-- A call that reads, with one transfer. -/
structure OneIn (t : Transaction) (kind : ReadKind) (n : Nat) : Prop where
  op : t.op = .read t.command
  format : t.format = kind.format
  few : n ≤ 64
  failed : ∀ {S : Type} (d : Device S) (address : UInt) {s s' : S} {status : Int} {got : List Byte},
    d.inp kind.code (setupOf address t.command) n s = ((status, got), s') → status < 0 →
      t.run d address s = (none, s')
  run : ∀ {S : Type} (d : Device S) (address : UInt) {s s' : S} {data bytes : List Byte},
    kind.format.Answers data → kind.format.encode data = bytes → bytes.length ≤ n →
      d.inp kind.code (setupOf address t.command) n s = (((bytes.length : Int), bytes), s') →
        t.run d address s = (some data, s')

theorem oneIn_readByte (command : Byte) : OneIn (.readByte command) .byte 1 := by
  refine ⟨rfl, rfl, by decide, fun d address s s' status got hinp hneg => ?_,
    fun d address s s' data bytes hans hbytes _ hinp => ?_⟩
  · have hcall : d.inp smbReadByte (setupOf address command) 1 s = ((status, got), s') := hinp
    simp only [Transaction.run, Fx2lp.readByte, hcall]
    rw [if_neg (by omega), outcome, if_pos hneg]
  · obtain ⟨b, rfl⟩ := List.length_eq_one_iff.mp hans
    obtain rfl : [b] = bytes := hbytes
    have hcall : d.inp smbReadByte (setupOf address command) 1 s = ((1, [b]), s') := hinp
    have hpos : ¬ (b.toNat : Int) < 0 := Int.not_lt.mpr (Int.natCast_nonneg _)
    simp only [Transaction.run, Fx2lp.readByte, hcall, if_true, leInt_byte, outcome, hpos,
      if_false, BitVec.ofInt_natCast, BitVec.ofNat_toNat, BitVec.setWidth_eq]

theorem oneIn_readWord (command : Byte) : OneIn (.readWord command) .word 2 := by
  refine ⟨rfl, rfl, by decide, fun d address s s' status got hinp hneg => ?_,
    fun d address s s' data bytes hans hbytes _ hinp => ?_⟩
  · have hcall : d.inp smbReadWord (setupOf address command) 2 s = ((status, got), s') := hinp
    simp only [Transaction.run, Fx2lp.readWord, hcall]
    rw [if_neg (by omega), outcome, if_pos hneg]
  · obtain ⟨lo, hi, rfl⟩ := List.length_eq_two.mp hans
    obtain rfl : [lo, hi] = bytes := hbytes
    have hcall : d.inp smbReadWord (setupOf address command) 2 s = ((2, [lo, hi]), s') := hinp
    simp only [Transaction.run, Fx2lp.readWord, hcall, if_true]
    rw [wordBytes_leInt, leInt_word, outcome, if_neg (Int.not_lt.mpr (Int.natCast_nonneg _))]

theorem oneIn_readBlock (command : Byte) : OneIn (.readBlock command) .block 64 := by
  refine ⟨rfl, rfl, Nat.le_refl _, fun d address s s' status got hinp hneg => ?_,
    fun d address s s' data bytes hans hbytes hlen hinp => ?_⟩
  · have hcall : d.inp smbReadBlock (setupOf address command) 64 s = ((status, got), s') := hinp
    simp only [Transaction.run, Fx2lp.readBlock, hcall, if_pos (Int.le_of_lt hneg), outcome,
      if_pos hneg]
  · obtain rfl : BitVec.ofNat 8 data.length :: data = bytes := hbytes
    rw [List.length_cons] at hlen
    have hcall : d.inp smbReadBlock (setupOf address command) 64 s =
        ((((data.length + 1 : Nat) : Int), BitVec.ofNat 8 data.length :: data), s') := hinp
    have hcount : (BitVec.ofNat 8 data.length).toNat = data.length := by
      rw [BitVec.toNat_ofNat]
      omega
    have hpos : ¬ ((data.length + 1 : Nat) : Int) ≤ 0 := by omega
    have hrest : readBlockRest d (setupOf address command) data.length loopFuel data.length
        (Mem.write (fun _ => 0) 0 data) s' =
        (some ((data.length : Int), Mem.write (fun _ => 0) 0 data), s') := by
      rw [show loopFuel = 255 + 1 from rfl, readBlockRest, if_neg (Nat.lt_irrefl _)]
    simp only [Transaction.run, Fx2lp.readBlock, hcall, hpos, if_false, List.headD_cons, hcount,
      Int.toNat_natCast, Nat.add_sub_cancel, List.drop_succ_cons, List.drop_zero, List.take_length,
      hrest, outcome, Mem.read_write, Int.not_lt.mpr (Int.natCast_nonneg data.length)]

/-- Such a call to the device. -/
theorem OneIn.done {t : Transaction} {kind : ReadKind} {n : Nat} (hone : OneIn t kind n)
    (haddr : address.setWidth 8 = dev.addr) (hcmd : dev.format t.command = some t.format)
    (hempty : s.Empty)
    (hlen : (kind.format.encode (dev.read t.command (s.memOf dev line d)).1).length ≤ n) :
    CallDone dev line d way t.op s (t.run (usb (dev.target line d) way) address ⟨s, 0⟩).1
      (t.run (usb (dev.target line d) way) address ⟨s, 0⟩).2.fx2 := by
  rw [hone.format] at hcmd
  rcases hinp : (usb (dev.target line d) way).inp kind.code (setupOf address t.command) n ⟨s, 0⟩
    with ⟨⟨status, got⟩, l⟩
  rw [hone.op]
  rcases inp_done kind haddr hcmd hempty rfl hlen hone.few hinp with
    ⟨hneg, hdone⟩ | ⟨rfl, rfl, hdone⟩
  · rw [hone.failed _ _ hinp hneg]
    exact hdone
  · rw [hone.run _ _ (dev.answers _ hcmd) rfl hlen hinp]
    exact hdone

/-- The answer of the device, as the firmware keeps it. -/
theorem blockData_replyStream (m : D) (command : Byte) :
    blockData (dev.replyStream command .block m) (dev.read command m).1.length =
      (dev.read command m).1 := by
  refine List.ext_getElem (by simp [blockData]) fun i h₁ h₂ => ?_
  simp [blockData, firstBytes, BusDevice.replyStream, BusDevice.reply, Format.encode,
    Nat.add_comm 1 i, List.getElem?_append_left, h₂]

/-- A block in several transfers.  The loop comes to its end. -/
theorem long_blockRead_done {command : Byte} (hway : Whole way)
    (haddr : address.setWidth 8 = dev.addr) (hcmd : dev.format command = some .block)
    (hempty : s.Empty) (hlen : 63 < (dev.read command (s.memOf dev line d)).1.length) :
    let r := (Transaction.readBlock command).run (usb (dev.target line d) way) address ⟨s, 0⟩
    CallDone dev line d way (.read command) s r.1 r.2.fx2 ∧
      (Fx2lp.readBlock (usb (dev.target line d) way) loopFuel address command (fun _ => 0)
        ⟨s, 0⟩).1 ≠ none := by
  obtain ⟨hlow, hhigh⟩ : 1 ≤ (dev.read command (s.memOf dev line d)).1.length ∧
    (dev.read command (s.memOf dev line d)).1.length ≤ 253 :=
      dev.answers (s.memOf dev line d) hcmd
  have hindex : toByte (setupOf address command).index = command := toByte_setWidth command
  have hstart : dev.after line d (s.tick (way 0).gap).trace = dev.after line d s.trace := rfl
  obtain ⟨ok, s', hserve, hserved : ReadServed dev line d .block (setupOf address command)
      (s.memOf dev line d) (s.tick (way 0).gap) ok s'⟩ := serve_read .block
    ((toByte_setupOf address command).trans haddr) (hindex.symm ▸ hcmd)
    (hempty.tick (way 0).gap) hstart
  have hcalled := hserved.called
  have hlong := hserved.long rfl
  rw [hindex] at hcalled hlong
  have hfail : ok = false → ∃ l, (Transaction.readBlock command).run
      (usb (dev.target line d) way) address ⟨s, 0⟩ = (none, l) ∧ l.fx2 = s' ∧
        (Fx2lp.readBlock (usb (dev.target line d) way) loopFuel address command (fun _ => 0)
          ⟨s, 0⟩).1 ≠ none := by
    rintro rfl
    refine ⟨⟨s', 1⟩, ?_⟩
    have hinp : (usb (dev.target line d) way).inp smbReadBlock (setupOf address command) 64 ⟨s, 0⟩ =
        ((libusbErrorPipe, []), ⟨s', 1⟩) := by
      simp only [usb, hway.delivered 0, show serve _ smbReadBlock _ _ = _ from hserve,
        Bool.false_eq_true, if_false, Nat.zero_add]
    have hneg : libusbErrorPipe < 0 := by decide
    have hread : Fx2lp.readBlock (usb (dev.target line d) way) loopFuel address command
        (fun _ => 0) ⟨s, 0⟩ = (some (libusbErrorPipe, fun _ => 0), ⟨s', 1⟩) := by
      simp only [Fx2lp.readBlock, hinp, if_pos (Int.le_of_lt hneg)]
    refine ⟨?_, rfl, ?_⟩
    · simp only [Transaction.run, hread, outcome, if_pos hneg]
    · rw [hread]
      exact Option.some_ne_none _
  cases ok with
  | false =>
      obtain ⟨l, hrun, hl, hends⟩ := hfail rfl
      intro r
      rw [show r = _ from hrun]
      refine ⟨⟨?_, ?_, fun hcalm _ => ?_⟩, hends⟩
      · rw [hl]
        exact hcalled
      · rw [hl]
        exact hserved.empty (.inl rfl)
      · refine absurd (hserved.ok_iff.mpr ?_) Bool.false_ne_true
        exact BusDevice.calm_addressRead hcalm ((toByte_setupOf address command).trans haddr)
          (hindex.symm ▸ hcmd) _
  | true =>
      have hout := readBlock_outcome loopFuel (fun _ => 0) (hway.delivered 0) hserve
        (n := (dev.read command (s.memOf dev line d)).1.length) (by
          change (BitVec.ofNat 8 (dev.read command (s.memOf dev line d)).1.length).toNat = _
          rw [BitVec.toNat_ofNat]
          omega) hlow (by omega) (hlong rfl) hway.inTime
      generalize hr : Fx2lp.readBlock (usb (dev.target line d) way) loopFuel address command
        (fun _ => 0) ⟨s, 0⟩ = r at hout
      cases hout with
      | failed _ hfate =>
          obtain ⟨k, hk⟩ := hfate
          exact absurd (hway.delivered k) hk
      | running hearly => exact absurd hearly (by decide)
      | @done l htrace hnone =>
          have hrun : (Transaction.readBlock command).run (usb (dev.target line d) way) address
              ⟨s, 0⟩ = (some (dev.read command (s.memOf dev line d)).1, l) := by
            simp only [Transaction.run, hr, outcome, Int.not_lt.mpr (Int.natCast_nonneg _),
              if_false, Int.toNat_natCast]
            rw [blockData_replyStream, Mem.read_write]
          intro r
          rw [show r = _ from hrun]
          refine ⟨⟨?_, hnone (.inl hlen), fun _ _ => Option.some_ne_none _⟩,
            Option.some_ne_none _⟩
          have hsame : l.fx2.memOf dev line d = (dev.after line d s'.trace).mem := by
            rw [Fx2.memOf, htrace]
          rw [hsame]
          exact hcalled

/-! ## Every call -/

/-- What it takes for a call to the device to leave nothing in the firmware: a block fits into
one transfer, or every transfer arrives, and the device takes the block. -/
def Manageable (dev : BusDevice D) (line : BusLine) (way : Nat → Delivery) (m : D) :
    Transaction → Prop
  | .writeBlock _ data =>
      data.length ≤ 63 ∨ (data.length ≤ tempSize ∧ data.length ≠ 64 ∧ line.Calm ∧ Whole way)
  | .readBlock command => (dev.read command m).1.length ≤ 63 ∨ Whole way
  | _ => True

/-- A call to the device is a call of the device. -/
theorem transaction_called {t : Transaction} (haddr : address.setWidth 8 = dev.addr)
    (hcmd : dev.format t.command = some t.format) (hempty : s.Empty)
    (hmanage : Manageable dev line way (s.memOf dev line d) t) :
    CallDone dev line d way t.op s (t.run (usb (dev.target line d) way) address ⟨s, 0⟩).1
      (t.run (usb (dev.target line d) way) address ⟨s, 0⟩).2.fx2 := by
  cases t with
  | sendByte command => exact (oneOut_sendByte command).done haddr hcmd hempty
  | writeByte command b => exact (oneOut_writeByte command b).done haddr hcmd hempty
  | writeWord command w => exact (oneOut_writeWord command w).done haddr hcmd hempty
  | writeBlock command data =>
      rcases hmanage with hshort | ⟨hlen, h64, hcalm, hway⟩
      · exact (oneOut_writeBlock command hshort).done haddr hcmd hempty
      · exact long_block_done hcalm hway haddr hcmd hempty hlen h64
  | readByte command =>
      exact (oneIn_readByte command).done haddr hcmd hempty (Nat.le_of_eq (dev.answers _ hcmd))
  | readWord command =>
      exact (oneIn_readWord command).done haddr hcmd hempty (Nat.le_of_eq (dev.answers _ hcmd))
  | readBlock command =>
      rcases Nat.lt_or_ge 63 (dev.read command (s.memOf dev line d)).1.length with hlong | hshort
      · exact (long_blockRead_done (hmanage.resolve_left (by omega)) haddr hcmd hempty hlong).1
      · exact (oneIn_readBlock command).done haddr hcmd hempty (Nat.succ_le_succ hshort)

/-- A block read of the device comes to its end. -/
theorem blockRead_ends {command : Byte} (haddr : address.setWidth 8 = dev.addr)
    (hcmd : dev.format command = some .block) (hempty : s.Empty)
    (hmanage : Manageable dev line way (s.memOf dev line d) (.readBlock command)) :
    (Fx2lp.readBlock (usb (dev.target line d) way) loopFuel address command (fun _ => 0)
      ⟨s, 0⟩).1 ≠ none := by
  rcases Nat.lt_or_ge 63 (dev.read command (s.memOf dev line d)).1.length with hlong | hshort
  · exact (long_blockRead_done (hmanage.resolve_left (by omega)) haddr hcmd hempty hlong).2
  have hone := oneIn_readBlock command
  rcases hinp : (usb (dev.target line d) way).inp smbReadBlock (setupOf address command) 64 ⟨s, 0⟩
    with ⟨⟨status, got⟩, l⟩
  rcases inp_done .block haddr hcmd hempty rfl (Nat.succ_le_succ hshort) (Nat.le_refl 64) hinp with
    ⟨hneg, -⟩ | ⟨rfl, rfl, -⟩
  · simp only [Fx2lp.readBlock, hinp, if_pos (Int.le_of_lt hneg)]
    exact Option.some_ne_none _
  · -- A loop that did not end would give the caller nothing.
    have hrun := hone.run (usb (dev.target line d) way) address (dev.answers _ hcmd) rfl
      (Nat.succ_le_succ hshort) hinp
    intro hnone
    rw [Transaction.run] at hrun
    generalize Fx2lp.readBlock (usb (dev.target line d) way) loopFuel address command
      (fun _ => 0) ⟨s, 0⟩ = r at hrun hnone
    obtain ⟨r, l'⟩ := r
    obtain rfl : r = none := hnone
    exact absurd (congrArg Prod.fst hrun) (Option.some_ne_none _).symm

/-! ## Calls to another address -/

/-- A call has changed nothing. -/
structure Unchanged (dev : BusDevice D) (line : BusLine) (d : D) (s s' : Fx2) : Prop where
  mem : s'.memOf dev line d = s.memOf dev line d
  empty : s'.Empty

theorem out_elsewhere (kind : WriteKind) (hkind : kind ≠ .sequence) {command : Byte}
    {data sent : List Byte} (haddr : address.setWidth 8 ≠ dev.addr) (hempty : s.Empty)
    (hwrites : ((s.tick (way 0).gap).load sent).Writes data kind) {status : Int} {l' : Link}
    (hout : (usb (dev.target line d) way).out kind.code (setupOf address command) sent ⟨s, 0⟩ =
      (status, l')) : status < 0 ∧ Unchanged dev line d s l'.fx2 := by
  have hσ : dev.after line d ((s.tick (way 0).gap).load sent).trace =
      dev.after line d s.trace := rfl
  obtain ⟨s', hserve, hmem, hkept⟩ :=
    serve_write_elsewhere kind hkind haddr ((hempty.tick (way 0).gap).load sent) hwrites hσ
  rcases out_cases (l := ⟨s, 0⟩) hserve hout with ⟨hneg, hend, -⟩ | ⟨hok, -⟩
  · refine ⟨hneg, ?_⟩
    rcases hend with h | h <;> rw [h]
    · exact ⟨rfl, hempty.tick _⟩
    · exact ⟨hmem, hkept⟩
  · exact Bool.noConfusion hok

theorem inp_elsewhere (kind : ReadKind) {command : Byte} {n : Nat}
    (haddr : address.setWidth 8 ≠ dev.addr) (hempty : s.Empty) {status : Int} {got : List Byte}
    {l' : Link} (hinp : (usb (dev.target line d) way).inp kind.code (setupOf address command) n
      ⟨s, 0⟩ = ((status, got), l')) : status < 0 ∧ Unchanged dev line d s l'.fx2 := by
  have hσ : dev.after line d (s.tick (way 0).gap).trace = dev.after line d s.trace := rfl
  have hother : toByte (setupOf address command).value ≠ dev.addr := by
    rwa [toByte_setupOf]
  obtain ⟨s', hserve, hmem, hkept⟩ :=
    serve_read_elsewhere kind hother (hempty.tick (way 0).gap) hσ
  rcases inp_cases (l := ⟨s, 0⟩) hserve hinp with ⟨hneg, hend, -⟩ | ⟨hok, -⟩
  · refine ⟨hneg, ?_⟩
    rcases hend with h | h <;> rw [h]
    · exact ⟨rfl, hempty.tick _⟩
    · exact ⟨hmem, hkept⟩
  · exact Bool.noConfusion hok

/-- A call to another address fails, and changes nothing. -/
theorem transaction_elsewhere {t : Transaction} (haddr : address.setWidth 8 ≠ dev.addr)
    (hempty : s.Empty) (hshort : ∀ command data, t = .writeBlock command data →
      data.length ≤ 63) :
    (t.run (usb (dev.target line d) way) address ⟨s, 0⟩).1 = none ∧
      Unchanged dev line d s (t.run (usb (dev.target line d) way) address ⟨s, 0⟩).2.fx2 := by
  have hout : ∀ {kind data sent}, OneOut t kind data sent →
      (t.run (usb (dev.target line d) way) address ⟨s, 0⟩).1 = none ∧
        Unchanged dev line d s (t.run (usb (dev.target line d) way) address ⟨s, 0⟩).2.fx2 := by
    intro kind data sent hone
    rcases hcall : (usb (dev.target line d) way).out kind.code (setupOf address t.command) sent
      ⟨s, 0⟩ with ⟨status, l⟩
    obtain ⟨hneg, hsame⟩ := out_elsewhere kind hone.noSequence haddr hempty
      (hone.writes (hempty.tick _)) hcall
    rw [hone.run _ _ hcall (.inl hneg), outcome, if_pos hneg]
    exact ⟨rfl, hsame⟩
  have hinp : ∀ {kind n}, OneIn t kind n →
      (t.run (usb (dev.target line d) way) address ⟨s, 0⟩).1 = none ∧
        Unchanged dev line d s (t.run (usb (dev.target line d) way) address ⟨s, 0⟩).2.fx2 := by
    intro kind n hone
    rcases hcall : (usb (dev.target line d) way).inp kind.code (setupOf address t.command) n ⟨s, 0⟩
      with ⟨⟨status, got⟩, l⟩
    obtain ⟨hneg, hsame⟩ := inp_elsewhere kind haddr hempty hcall
    rw [hone.failed _ _ hcall hneg]
    exact ⟨rfl, hsame⟩
  cases t with
  | sendByte command => exact hout (oneOut_sendByte command)
  | writeByte command b => exact hout (oneOut_writeByte command b)
  | writeWord command w => exact hout (oneOut_writeWord command w)
  | writeBlock command data =>
      exact hout (oneOut_writeBlock command (hshort command data rfl))
  | readByte command => exact hinp (oneIn_readByte command)
  | readWord command => exact hinp (oneIn_readWord command)
  | readBlock command => exact hinp (oneIn_readBlock command)

end

end Smbusb
