import Smbusb.Firmware.Probing
import Smbusb.Host.DeviceCalls
import Smbusb.Host.PecReport
import Smbusb.Host.TwoDrivers

/-!
# Programs and a device

A program makes one call after the other, and what becomes of the transfers of each is not in its
hands.  Here is what it can know of the device from what its calls return.

*Any run.*  `run_explained` is about every line and every fate of every transfer, for calls that are
`Proper`.  The device has carried out some of what the program asked for, in the order of the calls:
what returned for certain, with the result that was returned, what failed perhaps, and nothing
twice.

*A run without trouble.*  `run_refines` says that on a calm line, when every transfer arrives in
time, the program sees the device as an object of its own.

*Probes.*  `testAddressAck` is harmless.  `testCommandAck` is not: its frame is the one of
`sendByte`, and a device that has the command carries it out.
-/

namespace Smbusb

open Logic Fx2lp

/-! ## Calls -/

/-- A call of a program. -/
inductive DeviceCall where
  | transaction (address : UInt) (t : Transaction)
  | testAddressAck (address : UInt)
  | testCommandAck (address : UInt) (command : Byte)
  | enablePec (state : Byte)
  | getLastReadPecFail
deriving DecidableEq, Repr

/-- A call, and what becomes of its transfers. -/
structure Turn where
  call : DeviceCall
  way : Nat → Delivery

namespace DeviceCall

/-- What the caller gets. -/
def run {S : Type} (d : Device S) (s : S) : DeviceCall → Option (List Byte) × S
  | transaction address t => t.run d address s
  | testAddressAck address =>
      let (status, s) := Fx2lp.testAddressAck d address s
      (outcome status [BitVec.ofInt 8 status], s)
  | testCommandAck address command =>
      let (status, s) := Fx2lp.testCommandAck d address command s
      (outcome status [BitVec.ofInt 8 status], s)
  | enablePec state => (some [], Fx2lp.enablePec d state s)
  | getLastReadPecFail =>
      let (pecFailed, s) := Fx2lp.getLastReadPecFail d s
      (some [pecFailed], s)

variable {D : Type}

/-- What a call has a device do. -/
def op (dev : BusDevice D) : DeviceCall → Option BusOp
  | transaction address t => if address.setWidth 8 = dev.addr then some t.op else none
  | testCommandAck address command =>
      if address.setWidth 8 = dev.addr ∧ dev.format command = some .send then
        some (.write command [])
      else none
  | _ => none

/-- What the caller gets of its result. -/
def seen (r : Option (List Byte)) : DeviceCall → Option (List Byte)
  | testCommandAck _ _ => if r = some [0xFF] then some [] else none
  | _ => r

end DeviceCall

section

variable {D : Type} (dev : BusDevice D) (line : BusLine) (d : D)

/-- The firmware after a call. -/
def turn (s : Fx2) (t : Turn) : Fx2 := (t.call.run (usb (dev.target line d) t.way) ⟨s, 0⟩).2.fx2

/-- What a call adds to the history of the device. -/
def entries (s : Fx2) (t : Turn) : List (BusOp × Option (List Byte)) :=
  match t.call.op dev with
  | some op => [(op, t.call.seen (t.call.run (usb (dev.target line d) t.way) ⟨s, 0⟩).1)]
  | none => []

/-- A call that uses a command by its format, and leaves nothing in the firmware. -/
def Proper (s : Fx2) (t : Turn) : Prop :=
  match t.call with
  | .transaction address u =>
      if address.setWidth 8 = dev.addr then
        dev.format u.command = some u.format ∧ Manageable dev line t.way (s.memOf dev line d) u
      else ∀ command data, u = .writeBlock command data → data.length ≤ 63
  | _ => True

end

section

variable {D : Type} {dev : BusDevice D} {line : BusLine} {d : D} {way : Nat → Delivery} {s : Fx2}
  {address : UInt} {command : Byte}

/-! ## Probes -/

/-- A probe whose START worked is a frame. -/
theorem probeFrame_eq (T : Target) (bytes : List Byte) (s : I2c) :
    (probeFrame T bytes s = (some (sendFrame T bytes s).1, (sendFrame T bytes s).2)) ∨
      ((i2cStart T s).1 = false ∧ probeFrame T bytes s = (none, (i2cStart T s).2)) := by
  by_cases hstart : (i2cStart T s).1 = true
  · simp only [probeFrame, sendFrame, if_pos hstart]
    exact .inl trivial
  · simp only [probeFrame, if_neg hstart]
    exact .inr ⟨Bool.eq_false_iff.mpr hstart, trivial⟩

/-- A frame of which no beginning is a write changes nothing. -/
theorem BusDevice.sendFrame_harmless {frame : List Byte} (b : I2c)
    (h : ∀ pre m, pre <+: frame → (dev.takeAll pre ⟨.begun, m⟩).mem = m ∧
      (dev.stop (dev.takeAll pre ⟨.begun, m⟩)).mem = m) :
    (dev.after line d (sendFrame (dev.target line d) frame b).2.trace).mem =
      (dev.after line d b.trace).mem := by
  rcases after_sendFrame frame b rfl with ⟨-, -, hend⟩ | ⟨-, pre, hpre, hend⟩
  · rw [hend]
    exact (h frame _ (List.prefix_refl _)).2
  · obtain hend | hend := hend <;> rw [hend]
    · exact (h pre _ hpre).1
    · exact (h pre _ hpre).2

/-- An address is no write. -/
theorem BusDevice.take_address (a : Byte) (m : D) :
    (dev.take a ⟨.begun, m⟩).mem = m ∧ (dev.stop (dev.take a ⟨.begun, m⟩)).mem = m := by
  by_cases ha : a = dev.addr
  · simp only [take, stop, if_pos ha, and_self]
  · simp only [take, stop, if_neg ha, and_self]

/-- An address and a command are none, unless the command is sent. -/
theorem BusDevice.take_command {a c : Byte} (hsend : ¬ (a = dev.addr ∧ dev.format c = some .send))
    (m : D) : (dev.take c (dev.take a ⟨.begun, m⟩)).mem = m ∧
      (dev.stop (dev.take c (dev.take a ⟨.begun, m⟩))).mem = m := by
  by_cases ha : a = dev.addr
  swap
  · have hdrop : dev.take a ⟨.begun, m⟩ = ⟨.idle, m⟩ := by
      simp only [take, if_neg ha]
    rw [hdrop, take_of_idle rfl]
    exact ⟨rfl, rfl⟩
  · have htake : dev.take a ⟨.begun, m⟩ = ⟨.addressed, m⟩ := by
      simp only [take, if_pos ha]
    rw [htake]
    cases hformat : dev.format c with
    | none => simp only [take, hformat, stop, and_self]
    | some f =>
        have hmore : f.more [] = true := by
          cases f with
          | send => exact absurd ⟨ha, hformat⟩ hsend
          | byte => rfl
          | word => rfl
          | block => rfl
        simp only [take, hformat, stop, hmore, if_true, and_self]

theorem testCommandFrame_harmless {a c : Byte}
    (hsend : ¬ (a = dev.addr ∧ dev.format c = some .send)) (pre : List Byte) (m : D)
    (hpre : pre <+: [a, c]) : (dev.takeAll pre ⟨.begun, m⟩).mem = m ∧
      (dev.stop (dev.takeAll pre ⟨.begun, m⟩)).mem = m := by
  rw [List.prefix_cons_iff] at hpre
  obtain rfl | ⟨p, rfl, hpre⟩ := hpre
  · exact ⟨rfl, rfl⟩
  rw [List.prefix_cons_iff] at hpre
  obtain rfl | ⟨p', rfl, hpre⟩ := hpre
  · exact BusDevice.take_address a m
  · rw [List.prefix_nil.mp hpre]
    exact BusDevice.take_command hsend m

/-- The frame of a probe is the write of its command, or harmless. -/
theorem probe_called {a : Byte} (b : I2c) {r : Option Bool × I2c}
    (hr : probeFrame (dev.target line d) [a, command] b = r) :
    if a = dev.addr ∧ dev.format command = some .send then
      Called dev.object (.write command []) (dev.after line d b.trace).mem
        (if r.1 = some true then some [] else none) (dev.after line d r.2.trace).mem
    else (dev.after line d r.2.trace).mem = (dev.after line d b.trace).mem := by
  have hstarted : (i2cStart (dev.target line d) b).1 = false →
      (dev.after line d (i2cStart (dev.target line d) b).2.trace).mem =
        (dev.after line d b.trace).mem := by
    intro hno
    rw [(BusDevice.after_start b rfl).2 hno]
    rfl
  split
  · rename_i hsend
    have hcalled := (BusDevice.sendFrame_called hsend.2 (show Format.send.Fits [] from rfl) .none b
      (rfl : dev.after line d b.trace = _) rfl).1
    simp only [Format.encode, List.append_nil, ← hsend.1] at hcalled
    rcases probeFrame_eq (dev.target line d) [a, command] b with
      hprobe | ⟨hno, hprobe⟩
    · rw [← hr, hprobe]
      simpa only [Option.some.injEq] using hcalled
    · rw [← hr, hprobe, if_neg (Option.some_ne_none _).symm]
      rw [show (dev.after line d (i2cStart (dev.target line d) b).2.trace).mem = _ from
        hstarted hno]
      exact .missed
  · rename_i hsend
    rcases probeFrame_eq (dev.target line d) [a, command] b with
      hprobe | ⟨hno, hprobe⟩
    · rw [← hr, hprobe]
      exact BusDevice.sendFrame_harmless b (testCommandFrame_harmless hsend)
    · rw [← hr, hprobe]
      exact hstarted hno

/-- The frame of an address alone is harmless. -/
theorem probe_address (b : I2c) (a : Byte) :
    (dev.after line d (probeFrame (dev.target line d) [a] b).2.trace).mem =
      (dev.after line d b.trace).mem := by
  have hharmless : ∀ pre m, pre <+: [a] → (dev.takeAll pre ⟨.begun, m⟩).mem = m ∧
      (dev.stop (dev.takeAll pre ⟨.begun, m⟩)).mem = m := by
    intro pre m hpre
    rw [List.prefix_cons_iff] at hpre
    obtain rfl | ⟨p, rfl, hpre⟩ := hpre
    · exact ⟨rfl, rfl⟩
    · rw [List.prefix_nil.mp hpre]
      exact BusDevice.take_address a m
  rcases probeFrame_eq (dev.target line d) [a] b with hprobe | ⟨hno, hprobe⟩
  · rw [hprobe]
    exact BusDevice.sendFrame_harmless b hharmless
  · rw [hprobe, (BusDevice.after_start b rfl).2 hno]
    rfl

/-! ## Steps -/

/-- An IN transfer whose request leaves the device and the cursors alone. -/
theorem inp_unchanged {cmd : Byte} {setup : Setup} {n : Nat} (hempty : s.Empty)
    (hcmd : ¬ MovesCursors cmd)
    (hmem : (serve (dev.target line d) cmd setup (s.tick (way 0).gap)).2.memOf dev line d =
      s.memOf dev line d) {r : (Int × List Byte) × Link}
    (hinp : (usb (dev.target line d) way).inp cmd setup n ⟨s, 0⟩ = r) :
    Unchanged dev line d s r.2.fx2 := by
  obtain ⟨⟨status, got⟩, l⟩ := r
  have hcursors := serve_cursors (dev.target line d) hcmd setup (s.tick (way 0).gap)
  rcases hserve : serve (dev.target line d) cmd setup (s.tick (way 0).gap) with ⟨ok, s'⟩
  rw [hserve] at hmem hcursors
  have hkept : s'.Empty := (hempty.tick (way 0).gap).of_cursors hcursors
  have hend : l.fx2 = s.tick (way 0).gap ∨ l.fx2 = s' := by
    rcases inp_cases (l := ⟨s, 0⟩) hserve hinp with ⟨-, hend, -⟩ | ⟨-, -, -, hend⟩
    · exact hend
    · exact .inr hend
  rcases hend with h | h <;> rw [h]
  · exact ⟨rfl, hempty.tick _⟩
  · exact ⟨hmem, hkept⟩

theorem serve_testAddressAck (T : Target) (setup : Setup) (s : Fx2) :
    serve T smbTestAddressAck setup s =
      ((probeFrame T [toByte setup.value] s.toI2c).1.isSome,
        s.probed (probeFrame T [toByte setup.value] s.toI2c)) :=
  serve_of_run smbTestAddressAck (testAddressAck_eq setup.value s)

theorem serve_testCommandAck (T : Target) (setup : Setup) (s : Fx2) :
    serve T smbTestCommandAck setup s =
      ((probeFrame T [toByte setup.value, toByte setup.index] s.toI2c).1.isSome,
        s.probed (probeFrame T [toByte setup.value, toByte setup.index] s.toI2c)) :=
  serve_of_run smbTestCommandAck (testCommandAck_eq setup.value setup.index s)

theorem serve_getClearPecFail_bus (T : Target) (setup : Setup) (s : Fx2) :
    (serve T smbGetClearPecFail setup s).2.toI2c = s.toI2c := by
  have h : Prog.wp Handler.getClearPecFail (fun _ s' => s'.toI2c = s.toI2c)
      (fun _ s' => s'.toI2c = s.toI2c) s := by
    simp only [Handler.getClearPecFail, Prog.wp_bind, Prog.wp_get, Prog.wp_ite, Fw.wp_setEp0buf,
      Fw.wp_setEp0bcl, Prog.wp_modify, Prog.wp_pure]
    split <;> trivial
  rw [serve_endState]
  exact Prog.endState_of_wp h

/-- On a calm line the probe of a command that is sent is ACKed. -/
theorem calm_probe (hcalm : line.Calm) (b : I2c) (hcmd : dev.format command = some .send) :
    (probeFrame (dev.target line d) [dev.addr, command] b).1 = some true := by
  have hstart : (i2cStart (dev.target line d) b).1 = true := BusDevice.calm_start hcalm b
  have htake := BusDevice.takeAll_whole (m := (dev.after line d b.trace).mem) hcmd
    (show Format.send.Fits [] from rfl) .none
  have hsent : (sendAll (dev.target line d) [dev.addr, command]
      (i2cStart (dev.target line d) b).2).1 = true := by
    refine BusDevice.calm_sendAll hcalm _ ?_
    rw [(BusDevice.after_start b rfl).1 hstart]
    exact htake
  rw [probeFrame, if_pos hstart, hsent]

/-- What the caller learns of a probe. -/
theorem seen_testCommandAck {status : Int} {got : List Byte} :
    (DeviceCall.testCommandAck address command).seen
      (outcome (if status = 1 then leInt got else status)
        [BitVec.ofInt 8 (if status = 1 then leInt got else status)]) = none ∨ ¬ status < 0 := by
  rcases Int.lt_or_le status 0 with hneg | hpos
  · rw [if_neg (by omega), outcome, if_pos hneg]
    exact .inl rfl
  · exact .inr (Int.not_lt.mpr hpos)

variable (dev line d way address command) in
/-- A probe of a command is a call of the device, or changes nothing. -/
theorem testCommandAck_done (hempty : s.Empty) :
    let r := (DeviceCall.testCommandAck address command).run (usb (dev.target line d) way) ⟨s, 0⟩
    if address.setWidth 8 = dev.addr ∧ dev.format command = some .send then
      CallDone dev line d way (.write command []) s
        ((DeviceCall.testCommandAck address command).seen r.1) r.2.fx2
    else Unchanged dev line d s r.2.fx2 := by
  have hserve := serve_testCommandAck (dev.target line d) (setupOf address command)
    (s.tick (way 0).gap)
  have hindex : toByte (setupOf address command).index = command := toByte_setWidth command
  rw [toByte_setupOf, hindex] at hserve
  generalize hprobe : probeFrame (dev.target line d) [address.setWidth 8, command]
    (s.tick (way 0).gap).toI2c = p at hserve
  have hcalled := probe_called _ hprobe
  rcases hinp : (usb (dev.target line d) way).inp smbTestCommandAck (setupOf address command) 1
    ⟨s, 0⟩ with ⟨⟨status, got⟩, l⟩
  have hrun : (DeviceCall.testCommandAck address command).run (usb (dev.target line d) way) ⟨s, 0⟩ =
      (outcome (if status = 1 then leInt got else status)
        [BitVec.ofInt 8 (if status = 1 then leInt got else status)], l) := by
    simp only [DeviceCall.run, Fx2lp.testCommandAck, hinp]
  have hcursors := serve_cursors (dev.target line d) (show ¬ MovesCursors smbTestCommandAck by
    unfold MovesCursors; decide) (setupOf address command) (s.tick (way 0).gap)
  rw [hserve] at hcursors
  have hkept : ((s.tick (way 0).gap).probed p).Empty := (hempty.tick _).of_cursors hcursors
  have hmem : ((s.tick (way 0).gap).probed p).memOf dev line d =
      (dev.after line d p.2.trace).mem := by
    rw [Fx2.memOf, Fx2.probed_toI2c]
  intro r
  rw [show r = _ from hrun]
  have hcases := inp_cases (l := ⟨s, 0⟩) hserve hinp
  have hend : l.fx2 = s.tick (way 0).gap ∨ l.fx2 = (s.tick (way 0).gap).probed p := by
    rcases hcases with ⟨-, hend, -⟩ | ⟨-, -, -, hend⟩
    · exact hend
    · exact .inr hend
  have hl : l.fx2.Empty := by
    rcases hend with h | h <;> rw [h]
    · exact hempty.tick _
    · exact hkept
  split at hcalled
  · rename_i hsend
    rw [if_pos hsend]
    have hack : line.Calm → p.1 = some true := by
      intro hcalm
      rw [← hprobe, hsend.1]
      exact calm_probe hcalm _ hsend.2
    rcases hcases with ⟨hneg, -, hfails⟩ | ⟨hsome, hstatus, hgot, hl'⟩
    · rw [seen_testCommandAck.resolve_right (not_not.mpr hneg)]
      refine ⟨?_, hl, fun hcalm hdel => ?_⟩
      · rcases hend with h | h <;> rw [h]
        · exact .missed
        · rw [hmem]
          exact hcalled.failed
      · have hno := hfails (hdel 0)
        rw [hack hcalm] at hno
        exact Bool.noConfusion hno
    · obtain ⟨ack, hp⟩ := Option.isSome_iff_exists.mp hsome
      have hreply : ((s.tick (way 0).gap).probed p).reply 1 = [if ack then 0xFF else 0] := by
        simp only [Fx2.probed, hp]
        rfl
      have hanswer : (DeviceCall.testCommandAck address command).seen
          (outcome (if status = 1 then leInt got else status)
            [BitVec.ofInt 8 (if status = 1 then leInt got else status)]) =
          if p.1 = some true then some [] else none := by
        rw [hreply] at hstatus hgot
        rw [hstatus, hgot, hp]
        cases ack <;> rfl
      rw [hanswer]
      refine ⟨?_, hl, fun hcalm _ => ?_⟩
      · rw [hl', hmem]
        exact hcalled
      · rw [if_pos (hack hcalm)]
        exact Option.some_ne_none _
  · rename_i hsend
    rw [if_neg hsend]
    refine ⟨?_, hl⟩
    rcases hend with h | h <;> rw [h]
    · rfl
    · rw [hmem, hcalled]
      rfl

/-- What a step comes to: a call of the device, or nothing. -/
theorem turn_done {t : Turn} (hempty : s.Empty) (hproper : Proper dev line d s t) :
    match t.call.op dev with
    | some op => CallDone dev line d t.way op s
        (t.call.seen (t.call.run (usb (dev.target line d) t.way) ⟨s, 0⟩).1) (turn dev line d s t)
    | none => Unchanged dev line d s (turn dev line d s t) := by
  obtain ⟨call, way⟩ := t
  cases call with
  | transaction address u =>
      by_cases haddr : address.setWidth 8 = dev.addr
      · simp only [Proper, if_pos haddr] at hproper
        simp only [DeviceCall.op, if_pos haddr]
        exact transaction_called haddr hproper.1 hempty hproper.2
      · simp only [Proper, if_neg haddr] at hproper
        simp only [DeviceCall.op, if_neg haddr]
        exact (transaction_elsewhere haddr hempty hproper).2
  | testAddressAck address =>
      have hmem : (serve (dev.target line d) smbTestAddressAck (setupOf address 0)
          (s.tick (way 0).gap)).2.memOf dev line d = s.memOf dev line d := by
        rw [serve_testAddressAck, Fx2.memOf, Fx2.probed_toI2c, probe_address]
        rfl
      exact inp_unchanged (n := 1) (r := _) hempty
        (show ¬ MovesCursors smbTestAddressAck by unfold MovesCursors; decide) hmem rfl
  | testCommandAck address command =>
      have hdone := testCommandAck_done dev line d way address command hempty
      by_cases hsend : address.setWidth 8 = dev.addr ∧ dev.format command = some .send
      · simp only [DeviceCall.op, if_pos hsend] at hdone ⊢
        exact hdone
      · simp only [DeviceCall.op, if_neg hsend] at hdone ⊢
        exact hdone
  | enablePec state =>
      rcases hout : (usb (dev.target line d) way).out smbEnablePec
        ⟨if 0 < state then 1 else 0, 0⟩ [] ⟨s, 0⟩ with ⟨status, l⟩
      obtain ⟨s', hserve, htrace, -⟩ := enablePec_run (dev.target line d)
        ⟨if 0 < state then 1 else 0, 0⟩ ((s.tick (way 0).gap).load [])
      have hcursors := serve_cursors (dev.target line d)
        (show ¬ MovesCursors smbEnablePec by unfold MovesCursors; decide)
        ⟨if 0 < state then 1 else 0, 0⟩ ((s.tick (way 0).gap).load [])
      rw [hserve] at hcursors
      have hend : l.fx2 = s.tick (way 0).gap ∨ l.fx2 = s' := by
        rcases out_cases (l := ⟨s, 0⟩) hserve hout with ⟨-, hend, -⟩ | ⟨-, -, hend⟩
        · exact hend
        · exact .inr hend
      have hturn : turn dev line d s ⟨.enablePec state, way⟩ = l.fx2 := by
        simp only [turn, DeviceCall.run, Fx2lp.enablePec, hout]
      simp only [DeviceCall.op, hturn]
      rcases hend with h | h <;> rw [h]
      · exact ⟨rfl, hempty.tick _⟩
      · exact ⟨by rw [Fx2.memOf, htrace]; rfl, ((hempty.tick _).load []).of_cursors hcursors⟩
  | getLastReadPecFail =>
      have hmem : (serve (dev.target line d) smbGetClearPecFail ⟨1, 0⟩
          (s.tick (way 0).gap)).2.memOf dev line d = s.memOf dev line d := by
        rw [Fx2.memOf, serve_getClearPecFail_bus]
        rfl
      exact inp_unchanged (n := 1) (r := _) hempty
        (show ¬ MovesCursors smbGetClearPecFail by unfold MovesCursors; decide) hmem rfl

/-- A step is a list of calls of the device. -/
theorem turn_called {t : Turn} (hempty : s.Empty) (hproper : Proper dev line d s t) :
    Calls dev.object (s.memOf dev line d) (entries dev line d s t)
      ((turn dev line d s t).memOf dev line d) ∧ (turn dev line d s t).Empty := by
  have hdone := turn_done hempty hproper
  rw [entries]
  cases hop : t.call.op dev with
  | some op =>
      rw [hop] at hdone
      exact ⟨hdone.called.calls, hdone.empty⟩
  | none =>
      rw [hop] at hdone
      rw [hdone.mem]
      exact ⟨.nil _, hdone.empty⟩

/-- When nothing gets in the way, it gives their results. -/
theorem turn_refines {t : Turn} (hcalm : line.Calm) (hway : Whole t.way) (hempty : s.Empty)
    (hproper : Proper dev line d s t) :
    entries dev line d s t = replies dev.object (s.memOf dev line d) (t.call.op dev).toList ∧
      (turn dev line d s t).memOf dev line d =
        afterAll dev.object (s.memOf dev line d) (t.call.op dev).toList ∧
      (turn dev line d s t).Empty := by
  have hdone := turn_done hempty hproper
  rw [entries]
  cases hop : t.call.op dev with
  | some op =>
      rw [hop] at hdone
      have hsome := hdone.succeeds hcalm hway.delivered
      have hcalled := hdone.called
      generalize t.call.seen (t.call.run (usb (dev.target line d) t.way) ⟨s, 0⟩).1 = r at *
      generalize (turn dev line d s t).memOf dev line d = m at hcalled ⊢
      cases hcalled with
      | returned => exact ⟨rfl, rfl, hdone.empty⟩
      | unseen => exact absurd rfl hsome
      | missed => exact absurd rfl hsome
  | none =>
      rw [hop] at hdone
      exact ⟨rfl, hdone.mem, hdone.empty⟩

/-! ## A device to try -/

/-- A device that counts: command 1 is its count, command 2 counts, and command 3 gives the count
twice. -/
def BusDevice.counter : BusDevice Byte where
  addr := 0x16
  format cmd :=
    if cmd = 1 then some .byte else if cmd = 2 then some .send
    else if cmd = 3 then some .block else none
  write cmd data count := if cmd = 1 then data.headD 0 else if cmd = 2 then count + 1 else count
  read cmd count := (if cmd = 1 then [count] else if cmd = 3 then [count, count] else [], count)
  answers {cmd f} count h := by
    by_cases h₁ : cmd = 1
    · rw [if_pos h₁, Option.some.injEq] at h
      rw [if_pos h₁, ← h]
      rfl
    by_cases h₂ : cmd = 2
    · rw [if_neg h₁, if_pos h₂, Option.some.injEq] at h
      rw [h₂, ← h]
      rfl
    by_cases h₃ : cmd = 3
    · rw [if_neg h₁, if_neg h₂, if_pos h₃, Option.some.injEq] at h
      rw [h₃, ← h]
      exact ⟨Nat.le_succ 1, show 2 ≤ 253 by decide⟩
    · rw [if_neg h₁, if_neg h₂, if_neg h₃] at h
      cases h

/-- It is set, counts twice, and is read. -/
def counterCalls : List DeviceCall :=
  [.enablePec 1, .transaction 0x16 (.writeByte 1 5), .transaction 0x16 (.sendByte 2),
    .testCommandAck 0x16 2, .transaction 0x18 (.readByte 1), .transaction 0x16 (.readBlock 3)]

theorem counterCalls_proper {way : Nat → Delivery} (s : Fx2) {call : DeviceCall}
    (h : call ∈ counterCalls) : Proper BusDevice.counter .quick 0 s ⟨call, way⟩ := by
  simp only [counterCalls, List.mem_cons, List.not_mem_nil, or_false] at h
  rcases h with rfl | rfl | rfl | rfl | rfl | rfl
  · trivial
  · exact ⟨rfl, trivial⟩
  · exact ⟨rfl, trivial⟩
  · trivial
  · exact fun command data h => Transaction.noConfusion h
  · exact ⟨rfl, .inl (by change 2 ≤ 63; decide)⟩

/-! ## Runs -/

variable (dev line d) in
/-- The history of a run is about what the program asked of the device. -/
theorem history_ops (s : Fx2) (turns : List Turn) :
    (history (turn dev line d) (entries dev line d) s turns).map Prod.fst =
      turns.filterMap fun t => t.call.op dev := by
  induction turns generalizing s with
  | nil => rfl
  | cons t ts ih =>
      rw [history, List.map_append, ih, List.filterMap_cons, entries]
      cases t.call.op dev with
      | some op => rfl
      | none => rfl

/-- What a program knows of the device: it has carried out a part of what the program asked for,
in the same order, with what returned among it, and gave the results that were returned. -/
theorem run_explained {turns : List Turn} (hempty : s.Empty)
    (hproper : EveryStep (turn dev line d) (Proper dev line d) s turns) :
    ∃ es, Explains (history (turn dev line d) (entries dev line d) s turns) es ∧
      Plays dev.object (s.memOf dev line d) es
        ((turns.foldl (turn dev line d) s).memOf dev line d) ∧
      (es.map Prod.fst).Sublist (turns.filterMap fun t => t.call.op dev) ∧
      (answered (history (turn dev line d) (entries dev line d) s turns)).Sublist es := by
  have hstep : ∀ (s : Fx2) (t : Turn), s.Empty → Proper dev line d s t →
      Calls dev.object (s.memOf dev line d) (entries dev line d s t)
        ((turn dev line d s t).memOf dev line d) ∧ (turn dev line d s t).Empty :=
    fun _ _ => turn_called
  obtain ⟨hcalls, -⟩ := calls_history (·.memOf dev line d) Fx2.Empty hstep hempty hproper
  obtain ⟨es, hex, hplays⟩ := calls_iff.mp hcalls
  refine ⟨es, hex, hplays, ?_, hex.answered_sublist⟩
  rw [← history_ops dev line d s turns]
  exact hex.sublist

/-- A status that gets lost, a request that gets lost, and the rest arrives. -/
theorem run_explained_counter :
    let ways : List (Nat → Delivery) :=
      [.all 0, fun _ => ⟨2, .unacked 6⟩, fun _ => ⟨0, .lost 6⟩, .all 0, .all 0, .all 1]
    let turns := List.zipWith Turn.mk counterCalls ways
    ∃ es, Explains (history (turn .counter .quick 0) (entries .counter .quick 0) Fx2.init turns)
        es ∧
      Plays BusDevice.counter.object (Fx2.init.memOf .counter .quick 0) es
        ((turns.foldl (turn .counter .quick 0) Fx2.init).memOf .counter .quick 0) ∧
      (es.map Prod.fst).Sublist (turns.filterMap fun t => t.call.op .counter) ∧
      (answered (history (turn .counter .quick 0) (entries .counter .quick 0) Fx2.init
        turns)).Sublist es := by
  refine run_explained ⟨rfl, rfl⟩ ?_
  simp only [counterCalls, List.zipWith_cons_cons, List.zipWith_nil_right, everyStep_cons]
  exact ⟨counterCalls_proper _ (by decide), counterCalls_proper _ (by decide),
    counterCalls_proper _ (by decide), counterCalls_proper _ (by decide),
    counterCalls_proper _ (by decide), counterCalls_proper _ (by decide), trivial⟩

/-- When nothing gets in the way, the program has the device to itself. -/
theorem run_refines {turns : List Turn} (hcalm : line.Calm) (hempty : s.Empty)
    (hproper : EveryStep (turn dev line d) (fun s t => Proper dev line d s t ∧ Whole t.way) s
      turns) :
    history (turn dev line d) (entries dev line d) s turns =
        replies dev.object (s.memOf dev line d)
          (turns.flatMap fun t => (t.call.op dev).toList) ∧
      (turns.foldl (turn dev line d) s).memOf dev line d =
        afterAll dev.object (s.memOf dev line d)
          (turns.flatMap fun t => (t.call.op dev).toList) := by
  have hstep : ∀ (s : Fx2) (t : Turn), s.Empty → (Proper dev line d s t ∧ Whole t.way) →
      entries dev line d s t = replies dev.object (s.memOf dev line d) (t.call.op dev).toList ∧
        (turn dev line d s t).memOf dev line d =
          afterAll dev.object (s.memOf dev line d) (t.call.op dev).toList ∧
        (turn dev line d s t).Empty :=
    fun _ _ hempty h => turn_refines hcalm h.2 hempty h.1
  have hrun := history_of_returned (·.memOf dev line d) Fx2.Empty hstep hempty hproper
  rwa [history_const] at hrun

/-- All of them arrive. -/
theorem run_refines_counter :
    let turns := counterCalls.map fun call => Turn.mk call (.all 0)
    history (turn .counter .quick 0) (entries .counter .quick 0) Fx2.init turns =
        replies BusDevice.counter.object (Fx2.init.memOf .counter .quick 0)
          (turns.flatMap fun t => (t.call.op .counter).toList) ∧
      (turns.foldl (turn .counter .quick 0) Fx2.init).memOf .counter .quick 0 =
        afterAll BusDevice.counter.object (Fx2.init.memOf .counter .quick 0)
          (turns.flatMap fun t => (t.call.op .counter).toList) := by
  refine run_refines BusLine.calm_quick ⟨rfl, rfl⟩ ?_
  have hproper : ∀ (s : Fx2) (call : DeviceCall), call ∈ counterCalls →
      Proper BusDevice.counter .quick 0 s ⟨call, .all 0⟩ ∧ Whole (.all 0) :=
    fun s _ h => ⟨counterCalls_proper s h, whole_all_zero⟩
  simp only [counterCalls, List.map_cons, List.map_nil, everyStep_cons]
  exact ⟨hproper _ _ (by decide), hproper _ _ (by decide), hproper _ _ (by decide),
    hproper _ _ (by decide), hproper _ _ (by decide), hproper _ _ (by decide), trivial⟩

end

end Smbusb
