import Smbusb.Firmware.DeviceProbes
import Smbusb.Host.DeviceRuns
import Smbusb.Host.I2cDevice
import Smbusb.Tools.ScanDrivers

/-!
# Scanning a device

What `smbusb_scan` finds out about the commands of a device, and what it does to the device on the
way, with the FX2LP driver on a calm line.

*Commands.*  A command scan finds the commands that the device has (`commandScan_device`).  The
probe of a command is the write of one that is sent, so the scan carries out each of these once.

*Writability.*  A writability scan finds the format of each command, and leaves the device as it was
(`commandWriteScan_device`).  Both are wrong for the one command that has 3 as its packet error
code.

*Skip lists.*  A run has left `skipMap` if and only if a skip list names a value that is not in it.
-/

namespace Smbusb

open Logic Fx2lp

section

variable {D : Type} {dev : BusDevice D} {line : BusLine} {d : D} {way : Nat → Delivery}
  {address : UInt} {command : Byte}

/-! ## Probes -/

/-- What the probe of a command leaves behind. -/
def BusDevice.probeSend (dev : BusDevice D) (cmd : Byte) (m : D) : D :=
  if dev.format cmd = some .send then dev.write cmd [] m else m

variable (dev d) in
/-- On a calm line a probe tells whether the device has the command. -/
theorem probeFrame_device (hcalm : line.Calm) (b : I2c) (cmd : Byte) :
    (probeFrame (dev.target line d) [dev.addr, cmd] b).1 = some (dev.format cmd).isSome ∧
      (dev.after line d (probeFrame (dev.target line d) [dev.addr, cmd] b).2.trace).mem =
        dev.probeSend cmd (dev.after line d b.trace).mem := by
  have hstart : (i2cStart (dev.target line d) b).1 = true := BusDevice.calm_start hcalm b
  have hbegun := (BusDevice.after_start b rfl).1 hstart
  have haddr : dev.take dev.addr ⟨.begun, (dev.after line d b.trace).mem⟩ =
      ⟨.addressed, (dev.after line d b.trace).mem⟩ := by
    simp only [BusDevice.take, if_true]
  have htake : dev.takeAll [dev.addr, cmd] ⟨.begun, (dev.after line d b.trace).mem⟩ =
      dev.take cmd ⟨.addressed, (dev.after line d b.trace).mem⟩ :=
    congrArg (dev.take cmd) haddr
  have hack : (probeFrame (dev.target line d) [dev.addr, cmd] b).1 =
      some (dev.format cmd).isSome := by
    rw [probeFrame, if_pos hstart]
    cases hformat : dev.format cmd with
    | none =>
        rcases BusDevice.after_sendAll [dev.addr, cmd] _ hbegun with ⟨-, hgoes, -⟩ | ⟨hno, -⟩
        · refine absurd ?_ (hgoes Phase.noConfusion)
          rw [htake]
          simp only [BusDevice.take, hformat]
        · rw [hno]
          rfl
    | some f =>
        rw [BusDevice.calm_sendAll hcalm]
        · rfl
        · rw [hbegun, htake]
          simp only [BusDevice.take, hformat]
          exact Phase.noConfusion
  refine ⟨hack, ?_⟩
  have hcalled := probe_called b
    (rfl : probeFrame (dev.target line d) [dev.addr, cmd] b = _)
  rw [BusDevice.probeSend]
  by_cases hsend : dev.format cmd = some .send
  · rw [if_pos ⟨rfl, hsend⟩, hack, hsend, Option.isSome_some, if_pos rfl] at hcalled
    rw [if_pos hsend]
    generalize (dev.after line d (probeFrame (dev.target line d) [dev.addr, cmd] b).2.trace).mem = m
      at hcalled
    cases hcalled with
    | returned => rfl
  · rw [if_neg fun h => hsend h.2] at hcalled
    rw [if_neg hsend, hcalled]

/-- A probe that is delivered. -/
theorem usb_inp_reply {T : Target} {cmd : Byte} {setup : Setup} {l : Link} {s' : Fx2} {x : Byte}
    (hdel : ∀ k, (way k).fate = .delivered)
    (hserve : serve T cmd setup (l.fx2.tick (way l.sent).gap) = (true, s'))
    (hreply : s'.reply 1 = [x]) :
    (usb T way).inp cmd setup 1 l = ((1, [x]), ⟨s', l.sent + 1⟩) := by
  simp only [usb, hdel, hserve, hreply, if_true]
  rfl

theorem testCommandAck_device (hcalm : line.Calm) (hdel : ∀ k, (way k).fate = .delivered)
    (haddr : address.setWidth 8 = dev.addr) (l : Link) :
    ∃ l', Fx2lp.testCommandAck (usb (dev.target line d) way) address command l =
        (probeStatus (dev.format command).isSome, l') ∧
      l'.fx2.memOf dev line d = dev.probeSend command (l.fx2.memOf dev line d) := by
  have hserve := serve_testCommandAck (dev.target line d) (Fx2lp.setupOf address command)
    (l.fx2.tick (way l.sent).gap)
  have hindex : toByte (Fx2lp.setupOf address command).index = command := toByte_setWidth command
  rw [toByte_setupOf, haddr, hindex] at hserve
  obtain ⟨hack, hmem⟩ := probeFrame_device dev d hcalm
    (l.fx2.tick (way l.sent).gap).toI2c command
  have hreply := probed_reply (l.fx2.tick (way l.sent).gap) hack
  obtain ⟨s', hs'⟩ : ∃ s' : Fx2, s' = (l.fx2.tick (way l.sent).gap).probed (probeFrame
      (dev.target line d) [dev.addr, command] (l.fx2.tick (way l.sent).gap).toI2c) := ⟨_, rfl⟩
  rw [← hs'] at hreply
  rw [hack, ← hs'] at hserve
  refine ⟨⟨s', l.sent + 1⟩, ?_, ?_⟩
  · simp only [Fx2lp.testCommandAck, usb_inp_reply hdel hserve hreply, if_true, leInt_probe]
  · rw [hs', Fx2.memOf, Fx2.probed_toI2c, hmem]
    rfl

theorem testCommandWrite_device (hcalm : line.Calm) (hdel : ∀ k, (way k).fate = .delivered)
    (haddr : address.setWidth 8 = dev.addr) (l : Link) :
    ∃ l', Fx2lp.testCommandWrite (usb (dev.target line d) way) address command l =
        ((dev.writability command : Int), l') ∧
      l'.fx2.memOf dev line d = dev.probeWrite command (l.fx2.memOf dev line d) := by
  have hstart : (i2cStart (dev.target line d) (l.fx2.tick (way l.sent).gap).toI2c).1 = true :=
    BusDevice.calm_start hcalm _
  have hbegun := (BusDevice.after_start (l.fx2.tick (way l.sent).gap).toI2c
    (rfl : dev.after line d _ = _)).1 hstart
  have hindex : toByte (setupOf address command).index = command := toByte_setWidth command
  obtain ⟨s', hs'⟩ : ∃ s' : Fx2, s' = { l.fx2.tick (way l.sent).gap with
      toI2c := (sendFrame (dev.target line d) ((testFrame dev.addr command).map Prod.fst)
        (l.fx2.tick (way l.sent).gap).toI2c).2
      ep0buf := Function.update (l.fx2.tick (way l.sent).gap).ep0buf 0
        (BitVec.ofNat 8 (score (dev.probeTakes command)))
      ep0bcl := 1 } := ⟨_, rfl⟩
  obtain ⟨hcount, hafter⟩ := BusDevice.calm_ackCount hcalm
    ((testFrame dev.addr command).map Prod.fst) _ hbegun
  obtain ⟨htakes, hmem⟩ := BusDevice.takes_testFrame dev command
    (dev.after line d (l.fx2.tick (way l.sent).gap).toI2c.trace).mem
  have hserve := serve_of_run smbTestCommandWrite
    (testCommandWrite_eq (setupOf address command).value (setupOf address command).index hstart)
  rw [toByte_setupOf, haddr, hindex, hcount, htakes, ← hs'] at hserve
  have hreply : s'.reply 1 = [BitVec.ofNat 8 (dev.writability command)] := by
    rw [hs']
    simp [Fx2.reply, Mem.read, BusDevice.writability]
  refine ⟨⟨s', l.sent + 1⟩, ?_, ?_⟩
  · simp only [Fx2lp.testCommandWrite, usb_inp_reply hdel hserve hreply, if_true, leInt_byte]
    have hscore : (BitVec.ofNat 8 (dev.writability command)).toNat = dev.writability command := by
      rw [BitVec.toNat_ofNat]
      exact Nat.mod_eq_of_lt (Nat.lt_of_le_of_lt (score_le _) (by decide))
    rw [hscore]
  · have hseven : ((testFrame dev.addr command).map Prod.fst).length = 7 := rfl
    have hframe : (sendFrame (dev.target line d) ((testFrame dev.addr command).map Prod.fst)
        (l.fx2.tick (way l.sent).gap).toI2c).2 = i2cStop (dev.target line d)
          (sendAll (dev.target line d) ((testFrame dev.addr command).map Prod.fst)
            (i2cStart (dev.target line d) (l.fx2.tick (way l.sent).gap).toI2c).2).2 := by
      rw [sendFrame, if_pos hstart]
    rw [htakes, hseven] at hafter
    rw [hs', Fx2.memOf, hframe, BusDevice.after_stop, hafter, hmem]
    rfl

end

/-! ## Scans -/

section

variable {S A : Type}

/-- A scan whose probes have known results and a known effect on what is seen of the state. -/
theorem scanLoop_effect (skipMap : Int → Byte) {test : Int → S → Option (Int × S)} (view : S → A)
    (status : Int → Int) (effect : Int → A → A)
    (htest : ∀ x s, ∃ s', test x s = some (status x, s') ∧ view s' = effect x (view s))
    (n : Nat) (i : Int) (oob : Bool) (s : S) :
    ∃ run s', scanLoop skipMap test n i ⟨[], oob⟩ s = some (run, s') ∧
      run.probes = ((scanValues i n).filter fun x => skipMap x ≠ 0xFF).map
        (fun x => Probe.mk x (status x)) ∧
      view s' = ((scanValues i n).filter fun x => skipMap x ≠ 0xFF).foldl
        (fun a x => effect x a) (view s) ∧
      (run.oob = false ↔ oob = false ∧ ∀ x ∈ scanValues i n, ¬ Outside x) := by
  have hstep : ∀ x ∈ scanValues i n, ∀ (ps : List Probe) t, skipMap x ≠ 0xFF →
      (ps = (ps.map Probe.value).map (fun x => Probe.mk x (status x)) ∧
        view t = (ps.map Probe.value).foldl (fun a x => effect x a) (view s)) →
      ∃ st t', test x t = some (st, t') ∧
        (ps ++ [Probe.mk x st] =
            ((ps ++ [Probe.mk x st]).map Probe.value).map (fun x => Probe.mk x (status x)) ∧
          view t' = ((ps ++ [Probe.mk x st]).map Probe.value).foldl (fun a x => effect x a)
            (view s)) := by
    rintro x - ps t - ⟨hps, hview⟩
    obtain ⟨t', hx, heffect⟩ := htest x t
    refine ⟨status x, t', hx, ?_, ?_⟩
    · rw [List.map_append, List.map_append, ← hps]
      rfl
    · rw [heffect, hview, List.map_append, List.foldl_append]
      rfl
  obtain ⟨run, s', hrun, ⟨hprobes, hview⟩, hvalues, hoob⟩ := scanLoop_run skipMap test
    (fun ps t => ps = (ps.map Probe.value).map (fun x => Probe.mk x (status x)) ∧
      view t = (ps.map Probe.value).foldl (fun a x => effect x a) (view s)) n i hstep ⟨[], oob⟩ s
    ⟨rfl, rfl⟩
  rw [List.map_nil, List.nil_append] at hvalues
  rw [hvalues] at hprobes hview
  exact ⟨run, s', hrun, hprobes, hview, hoob⟩

variable {D : Type} {dev : BusDevice D} {line : BusLine} {d : D} {way : Nat → Delivery}
  {stack : Int → Byte} {opts : List ScanOption} {v : ScanVars}

/-- The scan of `main`, behind the options. -/
theorem scan_of_options {drv : ScanDriver S}
    (hopts : scanOptions opts (ScanVars.init stack) = some v) (hmode : v.scanMode ≠ none) (s : S) :
    scan drv stack opts s = scanWith drv v s := by
  have hne : opts ≠ [] := by
    rintro rfl
    cases hopts
    exact hmode rfl
  rw [scan, if_neg hne, hopts, Option.bind_some]

/-- What the probes of commands leave behind, one after the other. -/
theorem foldl_probeSend (values : List Int) (m : D) :
    values.foldl (fun m i => dev.probeSend (BitVec.ofInt 8 i) m) m = afterAll dev.object m
      ((values.filter fun i => dev.format (BitVec.ofInt 8 i) = some .send).map fun i =>
        .write (BitVec.ofInt 8 i) []) := by
  induction values generalizing m with
  | nil => rfl
  | cons i values ih =>
      rw [List.foldl_cons, ih, BusDevice.probeSend]
      by_cases hsend : dev.format (BitVec.ofInt 8 i) = some .send
      · rw [if_pos hsend, List.filter_cons_of_pos (by simpa using hsend)]
        rfl
      · rw [if_neg hsend, List.filter_cons_of_neg (by simpa using hsend)]

/-- A command scan of a device finds the commands that it has.  It carries out each command that is
sent, in order. -/
theorem commandScan_device (hcalm : line.Calm) (hdel : ∀ k, (way k).fate = .delivered)
    (hopts : scanOptions opts (ScanVars.init stack) = some v)
    (hmode : v.scanMode = some .command) (hg : (given opts).InRange)
    (haddr : BitVec.ofInt 8 v.address = dev.addr) (l : Link) :
    ∃ run l', scan (fx2lpScanDriver (dev.target line d) way) stack opts l = some (run, l') ∧
      run.probes.map Probe.line = (expectedCommands (given opts)).map (fun i =>
        if (dev.format (BitVec.ofInt 8 i)).isSome then some (.ack i) else none) ∧
      l'.fx2.memOf dev line d = afterAll dev.object (l.fx2.memOf dev line d)
        (((expectedCommands (given opts)).filter fun i =>
          dev.format (BitVec.ofInt 8 i) = some .send).map fun i =>
            .write (BitVec.ofInt 8 i) []) ∧
      (run.oob = false ↔ (given opts).SkipsInside) := by
  have hv : Represents (given opts) v := (represents_init stack).options hopts
  have hbyte : (BitVec.ofInt 32 v.address).setWidth 8 = dev.addr := by
    rw [← haddr]
    exact (toByte_setupOf _ 0).symm.trans (toByte_ofInt v.address)
  rw [scan_of_options hopts (by rw [hmode]; exact Option.some_ne_none _), scanWith, hmode]
  have htest : ∀ (x : Int) (l : Link), ∃ l',
      (fx2lpScanDriver (dev.target line d) way).testCommandAck (BitVec.ofInt 32 v.address)
        (BitVec.ofInt 8 x) l = some (probeStatus (dev.format (BitVec.ofInt 8 x)).isSome, l') ∧
      l'.fx2.memOf dev line d = dev.probeSend (BitVec.ofInt 8 x) (l.fx2.memOf dev line d) := by
    intro x l
    obtain ⟨l', hcall, hmem⟩ := testCommandAck_device hcalm hdel hbyte l
    exact ⟨l', congrArg some hcall, hmem⟩
  obtain ⟨run, l', hrun, hprobes, hmem, hoob⟩ := scanLoop_effect v.skipMap
    (fun l : Link => l.fx2.memOf dev line d) _ _ htest (scanTurns v.start v.endAt) v.start v.oob l
  rw [hv.commandValues hg] at hprobes hmem
  refine ⟨run, l', hrun, ?_, ?_, hv.oob_iff hg hoob⟩
  · rw [hprobes, List.map_map]
    refine List.map_congr_left fun i _ => ?_
    simp only [Function.comp_apply]
    cases dev.format (BitVec.ofInt 8 i) with
    | none => rfl
    | some f => rfl
  · rw [hmem, foldl_probeSend]

/-- Of the first five commands, in the state 7. -/
theorem commandScan_counter :
    let opts : List ScanOption := [.command "16".toList, .begin "0".toList, .endAt "4".toList]
    ∃ run l', scan (fx2lpScanDriver (BusDevice.counter.target .quick 7) (.all 0)) (fun _ => 0) opts
        ⟨Fx2.init, 0⟩ = some (run, l') ∧
      run.probes.map Probe.line = (expectedCommands (given opts)).map (fun i =>
        if (BusDevice.counter.format (BitVec.ofInt 8 i)).isSome then some (.ack i) else none) ∧
      l'.fx2.memOf .counter .quick 7 =
        afterAll BusDevice.counter.object (Fx2.init.memOf .counter .quick 7)
          (((expectedCommands (given opts)).filter fun i =>
            BusDevice.counter.format (BitVec.ofInt 8 i) = some .send).map fun i =>
              .write (BitVec.ofInt 8 i) []) ∧
      (run.oob = false ↔ (given opts).SkipsInside) :=
  commandScan_device BusLine.calm_quick (Delivery.all_delivered 0) rfl rfl
    ⟨by decide, by decide⟩ rfl ⟨Fx2.init, 0⟩

/-- A writability scan of a device reports the format of each command.  It writes nothing, but to
the block with the packet error code that the probe happens to send. -/
theorem commandWriteScan_device (hcalm : line.Calm) (hdel : ∀ k, (way k).fate = .delivered)
    (hopts : scanOptions opts (ScanVars.init stack) = some v)
    (hmode : v.scanMode = some .commandWrite) (hg : (given opts).InRange)
    (haddr : BitVec.ofInt 8 v.address = dev.addr) (l : Link) :
    ∃ run l', scan (fx2lpScanDriver (dev.target line d) way) stack opts l = some (run, l') ∧
      run.probes = (expectedCommands (given opts)).map (fun i =>
        ⟨i, dev.writability (BitVec.ofInt 8 i)⟩) ∧
      l'.fx2.memOf dev line d = (expectedCommands (given opts)).foldl
        (fun m i => dev.probeWrite (BitVec.ofInt 8 i) m) (l.fx2.memOf dev line d) ∧
      (run.oob = false ↔ (given opts).SkipsInside) := by
  have hv : Represents (given opts) v := (represents_init stack).options hopts
  have hbyte : (BitVec.ofInt 32 v.address).setWidth 8 = dev.addr := by
    rw [← haddr]
    exact (toByte_setupOf _ 0).symm.trans (toByte_ofInt v.address)
  rw [scan_of_options hopts (by rw [hmode]; exact Option.some_ne_none _), scanWith, hmode]
  have htest : ∀ (x : Int) (l : Link), ∃ l',
      (fx2lpScanDriver (dev.target line d) way).testCommandWrite (BitVec.ofInt 32 v.address)
        (BitVec.ofInt 8 x) l = some ((dev.writability (BitVec.ofInt 8 x) : Int), l') ∧
      l'.fx2.memOf dev line d = dev.probeWrite (BitVec.ofInt 8 x) (l.fx2.memOf dev line d) := by
    intro x l
    obtain ⟨l', hcall, hmem⟩ := testCommandWrite_device hcalm hdel hbyte l
    exact ⟨l', congrArg some hcall, hmem⟩
  obtain ⟨run, l', hrun, hprobes, hmem, hoob⟩ := scanLoop_effect v.skipMap
    (fun l : Link => l.fx2.memOf dev line d) _ _ htest (scanTurns v.start v.endAt) v.start v.oob l
  rw [hv.commandValues hg] at hprobes hmem
  exact ⟨run, l', hrun, hprobes, hmem, hv.oob_iff hg hoob⟩

/-- Of the first five commands, in the state 7. -/
theorem commandWriteScan_counter :
    let opts : List ScanOption := [.commandWrite "16".toList, .begin "0".toList, .endAt "4".toList]
    ∃ run l', scan (fx2lpScanDriver (BusDevice.counter.target .quick 7) (.all 0)) (fun _ => 0) opts
        ⟨Fx2.init, 0⟩ = some (run, l') ∧
      run.probes = (expectedCommands (given opts)).map (fun i =>
        ⟨i, BusDevice.counter.writability (BitVec.ofInt 8 i)⟩) ∧
      l'.fx2.memOf .counter .quick 7 = (expectedCommands (given opts)).foldl
        (fun m i => BusDevice.counter.probeWrite (BitVec.ofInt 8 i) m)
        (Fx2.init.memOf .counter .quick 7) ∧
      (run.oob = false ↔ (given opts).SkipsInside) :=
  commandWriteScan_device BusLine.calm_quick (Delivery.all_delivered 0) rfl rfl
    ⟨by decide, by decide⟩ rfl ⟨Fx2.init, 0⟩

/-! ## The other driver -/

/-- The address of a message, for an even address of the command line. -/
theorem messageAddress {a : Int} {addr : Byte} (heven : addr &&& 0xFE = addr)
    (ha : BitVec.ofInt 8 a = addr) :
    toByte (((BitVec.ofInt 32 a >>> 1).setWidth 16 : Word) <<< 1) = addr := by
  have hbyte : (BitVec.ofInt 32 a).setWidth 8 = addr := by
    rw [← ha]
    exact (toByte_setupOf _ 0).symm.trans (toByte_ofInt a)
  have hshift : ∀ x : BitVec 32, toByte ((x >>> 1).setWidth 16 <<< 1 : Word) =
      x.setWidth 8 &&& 0xFE := by
    intro x
    apply BitVec.eq_of_getLsbD_eq
    intro i hi
    have hmask : (0xFE : Byte).getLsbD i = decide (1 ≤ i) := by
      interval_cases i <;> rfl
    rw [BitVec.getLsbD_and, hmask]
    cases i with
    | zero => simp [toByte]
    | succ i => simp [toByte, Nat.add_comm 1 i, hi]
  rw [hshift, hbyte, heven]

/-- With the I2CDEV driver a writability scan reports the same.  It writes to every command that
the device has: what it found out is the length of what it wrote. -/
theorem commandWriteScan_drives {k : Adapter S} {view : S → D} {fuel : Nat}
    (hk : k.Drives dev view) (hfuel : 0 < fuel) (heven : dev.addr &&& 0xFE = dev.addr)
    (hopts : scanOptions opts (ScanVars.init stack) = some v)
    (hmode : v.scanMode = some .commandWrite) (hg : (given opts).InRange)
    (haddr : BitVec.ofInt 8 v.address = dev.addr) (c : I2cCtx S) :
    ∃ run c', scan (i2cdevScanDriver k fuel) stack opts c = some (run, c') ∧
      run.probes = (expectedCommands (given opts)).map (fun i =>
        ⟨i, dev.writability (BitVec.ofInt 8 i)⟩) ∧
      view c'.file = (expectedCommands (given opts)).foldl
        (fun m i => I2cdev.overwritten dev (BitVec.ofInt 8 i) m) (view c.file) ∧
      (run.oob = false ↔ (given opts).SkipsInside) := by
  have hv : Represents (given opts) v := (represents_init stack).options hopts
  rw [scan_of_options hopts (by rw [hmode]; exact Option.some_ne_none _), scanWith, hmode]
  have htest : ∀ (x : Int) (c : I2cCtx S), ∃ c',
      (i2cdevScanDriver k fuel).testCommandWrite (BitVec.ofInt 32 v.address)
        (BitVec.ofInt 8 x) c = some ((dev.writability (BitVec.ofInt 8 x) : Int), c') ∧
      view c'.file = I2cdev.overwritten dev (BitVec.ofInt 8 x) (view c.file) :=
    fun x c => I2cdev.testCommandWrite_drives hk hfuel (messageAddress heven haddr) _ c
  obtain ⟨run, c', hrun, hprobes, hmem, hoob⟩ := scanLoop_effect v.skipMap
    (fun c : I2cCtx S => view c.file) _ _ htest (scanTurns v.start v.endAt) v.start v.oob c
  rw [hv.commandValues hg] at hprobes hmem
  exact ⟨run, c', hrun, hprobes, hmem, hv.oob_iff hg hoob⟩

/-- The first five commands again. -/
theorem commandWriteScan_counterAdapter :
    let opts : List ScanOption := [.commandWrite "16".toList, .begin "0".toList, .endAt "4".toList]
    ∃ run c', scan (i2cdevScanDriver BusDevice.counter.adapter 1) (fun _ => 0) opts
        ⟨false, false, 7⟩ = some (run, c') ∧
      run.probes = (expectedCommands (given opts)).map (fun i =>
        ⟨i, BusDevice.counter.writability (BitVec.ofInt 8 i)⟩) ∧
      c'.file = (expectedCommands (given opts)).foldl
        (fun m i => I2cdev.overwritten BusDevice.counter (BitVec.ofInt 8 i) m) 7 ∧
      (run.oob = false ↔ (given opts).SkipsInside) :=
  commandWriteScan_drives (BusDevice.adapter_drives BusDevice.counter) Nat.one_pos (by decide) rfl
    rfl ⟨by decide, by decide⟩ rfl ⟨false, false, 7⟩

end

end Smbusb
