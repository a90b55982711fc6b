import Smbusb.Host.I2cCalls

/-!
# Programs with either driver

What a program does to a device through the I2CDEV driver, and that it does the same through the
other one.

*Probes.*  The kernel sends `I2CDEV_SMBTestCommandACK` as a write of a byte, so with the PEC on it
adds the packet error code.  The device takes that for data (`BusDevice.probed`), and the probe
overwrites a command that has one byte (`testCommandAck_effect`).

*Runs.*  Every call is a call of the device (`file_done`).  So a run is explained by the device as
it is with the other driver (`file_explained`), and when nothing gets in the way it gives the
results of the device (`file_refines`).

*Both drivers.*  Then with both drivers the history of the device is the same, and they leave the
same device (`drivers_agree`).  What a probe of an address returns, and what a call to another
address does, is no part of that history.
-/

namespace Smbusb

open Logic

namespace BusDevice

variable {D : Type} (dev : BusDevice D) {m : D} {command : Byte}

/-! ## Probes -/

/-- The data that a probe with a packet error code behind it has for a command of a format. -/
def probeBytes (pec : Bool) (command : Byte) (f : Format) : List Byte :=
  if pec && f.more [] then [crc8 [dev.addr, command]] else []

/-- The data that such a probe writes, if it is whole. -/
def probed (pec : Bool) (command : Byte) : Option (List Byte) :=
  match dev.format command with
  | none => none
  | some f =>
      if f.more (dev.probeBytes pec command f) then none
      else some (f.decode (dev.probeBytes pec command f))

/-- What a probe leaves behind. -/
def afterProbe (pec : Bool) (command : Byte) (m : D) : D :=
  match dev.probed pec command with
  | none => m
  | some data => dev.write command data m

variable {dev}

/-- Without the code, it carries out a command that is sent. -/
theorem probed_false (command : Byte) :
    dev.probed false command = if dev.format command = some .send then some [] else none := by
  cases hformat : dev.format command with
  | none => simp [probed, hformat]
  | some f => cases f <;> simp [probed, hformat, probeBytes, Format.more, Format.decode]

variable (dev) in
/-- The whole frame of a probe. -/
theorem probe_whole (pec : Bool) (command : Byte) (m : D) :
    (dev.stop (dev.takeAll (coded pec [dev.addr, command]) ⟨.begun, m⟩)).mem =
        dev.afterProbe pec command m ∧
      ((dev.takeAll (coded pec [dev.addr, command]) ⟨.begun, m⟩).phase = .idle ↔
        dev.format command = none) := by
  cases hformat : dev.format command with
  | none => cases pec <;> simp [coded, take, hformat, stop, afterProbe, probed]
  | some f =>
      cases pec with
      | false =>
          cases f <;> simp [coded, take, hformat, stop, afterProbe, probed, probeBytes,
            Format.more, Format.decode]
      | true =>
          cases f with
          | send => simp [coded, take, hformat, stop, afterProbe, probed, probeBytes,
              Format.more, Format.decode]
          | byte => simp [coded, take, hformat, stop, afterProbe, probed, probeBytes,
              Format.more, Format.decode]
          | word => simp [coded, take, hformat, stop, afterProbe, probed, probeBytes,
              Format.more]
          | block =>
              simp [coded, take, hformat, stop, afterProbe, probed, probeBytes, Format.more]
              split <;> rfl

/-- A probe that writes is the frame of what it writes. -/
theorem probed_frame {pec : Bool} {data : List Byte} (h : dev.probed pec command = some data) :
    ∃ f on, dev.format command = some f ∧ f.Fits data ∧
      coded pec [dev.addr, command] = coded on (dev.addr :: command :: f.encode data) := by
  rw [probed] at h
  split at h
  · cases h
  rename_i f hformat
  split at h
  · cases h
  rename_i hmore
  rw [Option.some.injEq] at h
  refine ⟨f, ?_⟩
  cases f with
  | send =>
      rw [probeBytes, show Format.send.more [] = false from rfl, Bool.and_false,
        if_neg Bool.false_ne_true] at h
      exact ⟨pec, hformat, h.symm, by rw [← h]; rfl⟩
  | byte =>
      cases pec with
      | false => exact absurd rfl hmore
      | true =>
          have hdata : data = [crc8 [dev.addr, command]] := h.symm
          rw [hdata]
          refine ⟨false, hformat, rfl, ?_⟩
          simp only [coded, Format.encode, if_true, Bool.false_eq_true, if_false, List.append_nil,
            List.cons_append, List.nil_append]
  | word => cases pec <;> exact absurd rfl hmore
  | block =>
      cases pec with
      | false => exact absurd rfl hmore
      | true =>
          have hzero : crc8 [dev.addr, command] = 0 := by
            have hnone : ¬ 1 < (crc8 [dev.addr, command]).toNat + 1 :=
              fun hlt => hmore (decide_eq_true hlt)
            exact BitVec.eq_of_toNat_eq (by change _ = 0; omega)
          have hdata : data = [] := h.symm
          rw [hdata]
          refine ⟨false, hformat, Nat.zero_lt_succ 255, ?_⟩
          simp only [coded, Format.encode, if_true, Bool.false_eq_true, if_false, List.append_nil,
            List.cons_append, List.nil_append, hzero, List.length_nil, BitVec.ofNat_eq_ofNat]

/-- A probe that does not write is harmless, at every point of its frame. -/
theorem probed_harmless {pec : Bool} (h : dev.probed pec command = none) {pre : List Byte}
    (hpre : pre <+: coded pec [dev.addr, command]) (m : D) :
    (dev.takeAll pre ⟨.begun, m⟩).mem = m ∧ (dev.stop (dev.takeAll pre ⟨.begun, m⟩)).mem = m := by
  have hshort : ¬ (dev.addr = dev.addr ∧ dev.format command = some .send) := by
    rintro ⟨-, hformat⟩
    simp [probed, hformat, probeBytes, Format.more] at h
  have hunchanged : dev.afterProbe pec command m = m := by
    rw [afterProbe, h]
  cases pec with
  | false => exact testCommandFrame_harmless hshort pre m hpre
  | true =>
      have hwhole : coded true [dev.addr, command] =
          [dev.addr, command] ++ [crc8 [dev.addr, command]] := rfl
      rw [hwhole, List.prefix_concat_iff] at hpre
      rcases hpre with rfl | hpre
      · rw [← hwhole]
        refine ⟨?_, (probe_whole dev true command m).1.trans hunchanged⟩
        simp only [hwhole, takeAll_append, takeAll_cons, takeAll_nil, take, if_true]
        cases dev.format command with
        | none => rfl
        | some f => rfl
      · exact testCommandFrame_harmless hshort pre m hpre

end BusDevice

/-! ## Calls -/

namespace DeviceCall

variable {D : Type}

/-- What a call has a device do behind an adapter, with its PEC on or off. -/
def fileOp (dev : BusDevice D) (pec : Bool) : DeviceCall → Option BusOp
  | transaction address t => if wire address = dev.addr then some t.op else none
  | testCommandAck address command =>
      if wire address = dev.addr then (dev.probed pec command).map (.write command) else none
  | _ => none

/-- The PEC after a call. -/
def pecAfter (pec : Bool) : DeviceCall → Bool
  | enablePec state => decide (state ≠ 0)
  | _ => pec

/-- The address of a call is one byte. -/
def Low : DeviceCall → Prop
  | transaction address _ => address < 0x100
  | testCommandAck address _ => address < 0x100
  | _ => True

end DeviceCall

section

variable {S D : Type} (dev : BusDevice D) (k : DataAdapter S) (view : FileView S D) (fuel : Nat)

/-- The driver after a call. -/
def fileTurn (c : I2cCtx S) (call : DeviceCall) : I2cCtx S :=
  ((call.onFile k fuel c).map Prod.snd).getD c

/-- What a call adds to the history of the device. -/
def fileEntries (c : I2cCtx S) (call : DeviceCall) : List (BusOp × Option (List Byte)) :=
  match call.fileOp dev (view.pec c.file), call.onFile k fuel c with
  | some op, some (r, _) => [(op, r)]
  | _, _ => []

/-- A call that uses a command by its format. -/
def FileProper (c : I2cCtx S) : DeviceCall → Prop
  | .transaction address t =>
      (wire address = dev.addr → I2cdev.Usable dev (view.mem c.file) t) ∧
        ∀ command data, t = .writeBlock command data → data.length < 256
  | _ => True

end

section

variable {S D : Type} {dev : BusDevice D} {k : DataAdapter S} {view : FileView S D} {calm : Prop}
  {fuel : Nat} {address : UInt} {command : Byte} {c : I2cCtx S} {call : DeviceCall}

/-- What a call comes to: a call of the device, or nothing. -/
structure FileStep (dev : BusDevice D) (calm : Prop) (view : FileView S D) (call : DeviceCall)
    (c : I2cCtx S) (r : Option (List Byte)) (c' : I2cCtx S) : Prop where
  pec : view.pec c'.file = call.pecAfter (view.pec c.file)
  done : match call.fileOp dev (view.pec c.file) with
    | some op => Called dev.object op (view.mem c.file) r (view.mem c'.file) ∧
        (calm → call.Low → r ≠ none)
    | none => view.mem c'.file = view.mem c.file

/-- A frame of which no beginning is a write changes nothing. -/
theorem Sent.harmless {frame : List Byte} {m m' : D} {r : IoctlResult}
    (h : Sent dev calm frame m r m')
    (hframe : ∀ pre, pre <+: frame → (dev.takeAll pre ⟨.begun, m⟩).mem = m ∧
      (dev.stop (dev.takeAll pre ⟨.begun, m⟩)).mem = m) : m' = m := by
  cases h with
  | taken _ _ => exact (hframe frame (List.prefix_refl _)).2
  | broken _ _ left _ =>
      obtain ⟨pre, hpre, rfl | rfl⟩ := left
      · exact (hframe pre hpre).1
      · exact (hframe pre hpre).2

namespace I2cdev

/-- The probes look at more of the status of `smbus_address` than the other functions do, but it
has no more than two values. -/
theorem testCommandAck_selected (hk : k.Serves dev calm view) (hfuel : 0 < fuel) :
    testCommandAck k.toAdapter fuel address command c =
      selected k fuel address (smbusWriteByte k.toAdapter fuel command) c := by
  obtain ⟨hnot, -, -, hret, -⟩ := hk.slave c.file ((address.setWidth 16 : Word) >>> 1)
  have haddr := onFile_of_not_interrupted (c := c) hfuel hnot
  rw [testCommandAck, selected, smbusAddress, haddr]
  generalize k.ioctl (.slave ((address.setWidth 16 : Word) >>> 1)) c.file = r at hret
  simp only [Option.bind_eq_bind, Option.bind_some]
  rcases hret with hneg | ⟨hzero, -⟩
  · rw [if_pos hneg, if_pos (Int.ne_of_lt hneg)]
  · rw [hzero, if_neg (not_not.mpr rfl), if_neg (Int.lt_irrefl 0)]

/-- The frame of a probe is the write that it looks like, or harmless. -/
theorem probe_sent {m m' : D} {r : IoctlResult} {pec : Bool} {a : Byte}
    (h : Sent dev calm (coded pec [a, command]) m r m') :
    if a = dev.addr then
      match dev.probed pec command with
      | some data => Called dev.object (.write command data) m (outcome r.ret []) m' ∧
          (calm → 0 ≤ r.ret)
      | none => m' = m
    else m' = m := by
  split
  · rename_i ha
    rw [ha] at h
    split
    · rename_i data hprobed
      obtain ⟨f, on, hcmd, hfits, hframe⟩ := BusDevice.probed_frame hprobed
      rw [hframe] at h
      exact h.called on hcmd hfits
    · rename_i hprobed
      exact h.harmless fun pre hpre => BusDevice.probed_harmless hprobed hpre m
  · rename_i ha
    exact (h.elsewhere ha).2

variable (address command c) in
theorem testCommandAck_step (hk : k.Serves dev calm view) (hfuel : 0 < fuel) :
    ∃ status c', testCommandAck k.toAdapter fuel address command c = some (status, c') ∧
      FileStep dev calm view (.testCommandAck address command) c (outcome status []) c' := by
  rw [testCommandAck_selected hk hfuel]
  rcases selected_cases hk hfuel address (smbusWriteByte k.toAdapter fuel command) c with
    ⟨ret, c₁, hrun, hneg, hmem, hpec, hno⟩ | ⟨c₁, hrun, hslave, hmem, hpec⟩
  · refine ⟨ret, c₁, hrun, hpec, ?_⟩
    rw [outcome, if_pos hneg, hmem]
    split
    · exact ⟨.missed, fun hcalm hlow => absurd ⟨hcalm, hlow⟩ hno⟩
    · rfl
  · obtain ⟨hsent, hpec'⟩ := hk.byte c₁.file command
    refine ⟨_, _, hrun.trans (onFile_of_not_interrupted hfuel hsent.not_interrupted),
      hpec'.trans hpec, ?_⟩
    rw [hslave, hmem, hpec] at hsent
    have hprobe := probe_sent hsent
    generalize k.ioctl (.smbus i2cSmbusWrite command .byte) c₁.file = r at hprobe ⊢
    simp only [DeviceCall.fileOp]
    split at hprobe
    · rename_i ha
      rw [if_pos ha]
      cases hprobed : dev.probed (view.pec c.file) command with
      | none =>
          rw [hprobed] at hprobe
          exact hprobe
      | some data =>
          rw [hprobed] at hprobe
          refine ⟨hprobe.1, fun hcalm _ => ?_⟩
          rw [outcome, if_neg (Int.not_lt.mpr (hprobe.2 hcalm))]
          exact Option.some_ne_none _
    · rename_i ha
      rw [if_neg ha]
      exact hprobe

/-- On a bus where nothing gets in the way, a probe is answered for the commands that the device
has, and it leaves behind what the device makes of its frame. -/
theorem testCommandAck_effect (hk : k.Serves dev True view) (hfuel : 0 < fuel)
    (haddr : wire address = dev.addr) (hlow : address < 0x100) (command : Byte) (c : I2cCtx S) :
    ∃ status c', testCommandAck k.toAdapter fuel address command c = some (status, c') ∧
      (0 ≤ status ↔ dev.format command ≠ none) ∧
      view.mem c'.file = dev.afterProbe (view.pec c.file) command (view.mem c.file) := by
  rw [testCommandAck_selected hk hfuel]
  rcases selected_cases hk hfuel address (smbusWriteByte k.toAdapter fuel command) c with
    ⟨ret, c₁, -, -, -, -, hno⟩ | ⟨c₁, hrun, hslave, hmem, hpec⟩
  · exact absurd ⟨trivial, hlow⟩ hno
  obtain ⟨hsent, -⟩ := hk.byte c₁.file command
  refine ⟨_, _, hrun.trans (onFile_of_not_interrupted hfuel hsent.not_interrupted), ?_⟩
  rw [hslave, hmem, hpec, haddr] at hsent
  obtain ⟨hwhole, hidle⟩ := BusDevice.probe_whole dev (view.pec c.file) command
    (view.mem c.file)
  generalize k.ioctl (.smbus i2cSmbusWrite command .byte) c₁.file = r at hsent ⊢
  obtain ⟨r, s⟩ := r
  change Sent dev True _ _ r (view.mem s) at hsent
  change (0 ≤ r.ret ↔ _) ∧ view.mem s = _
  generalize view.mem s = m' at hsent ⊢
  cases hsent with
  | taken ret goes => exact ⟨iff_of_true ret (fun h => goes (hidle.mpr h)), hwhole⟩
  | broken ret _ left refused =>
      have hnone := hidle.mp (refused trivial)
      refine ⟨iff_of_false (Int.not_le.mpr ret) (not_not.mpr hnone), ?_⟩
      have hprobed : dev.probed (view.pec c.file) command = none := by
        rw [BusDevice.probed, hnone]
      rw [BusDevice.afterProbe, hprobed]
      obtain ⟨pre, hpre, rfl | rfl⟩ := left
      · exact (BusDevice.probed_harmless hprobed hpre _).1
      · exact (BusDevice.probed_harmless hprobed hpre _).2

/-- With the PEC on, it sets a counter. -/
theorem testCommandAck_effect_counter :
    let c : I2cCtx (BusFile Byte) := ⟨false, false, ⟨5, 0, true, []⟩⟩
    ∃ status c', testCommandAck (BusFile.adapter .counter).toAdapter 1 0x16 1 c =
        some (status, c') ∧
      (0 ≤ status ↔ BusDevice.counter.format 1 ≠ none) ∧
      (BusFile.view Byte).mem c'.file = BusDevice.counter.afterProbe true 1 5 :=
  testCommandAck_effect (BusFile.serves .counter) (by decide) (by decide) (by decide) 1
    ⟨false, false, ⟨5, 0, true, []⟩⟩

variable (address c) in
theorem testAddressAck_step (hk : k.Serves dev calm view) (hfuel : 0 < fuel) :
    ∃ status c', testAddressAck k.toAdapter fuel address c = some (status, c') ∧
      FileStep dev calm view (.testAddressAck address) c (outcome status []) c' := by
  obtain ⟨hnot, hmem, hpec, -, -⟩ := hk.slave c.file ((address.setWidth 16 : Word) >>> 1)
  have haddr := onFile_of_not_interrupted (c := c) hfuel hnot
  generalize k.ioctl (.slave ((address.setWidth 16 : Word) >>> 1)) c.file = r at hmem hpec haddr
  have hrun : testAddressAck k.toAdapter fuel address c = if r.1.ret ≠ 0 then
      some (r.1.ret, { c with file := r.2 }) else
        smbusWriteQuick k.toAdapter fuel 0 { c with file := r.2 } := by
    rw [testAddressAck, smbusAddress, haddr]
    rfl
  split at hrun
  · exact ⟨_, _, hrun, hpec, hmem⟩
  · obtain ⟨hsent, hpec'⟩ := hk.quick r.2
    refine ⟨_, _, hrun.trans (onFile_of_not_interrupted hfuel hsent.not_interrupted),
      hpec'.trans hpec, ?_⟩
    refine (hsent.harmless fun pre hpre => ?_).trans hmem
    rw [List.prefix_cons_iff] at hpre
    obtain rfl | ⟨p, rfl, hpre⟩ := hpre
    · exact ⟨rfl, rfl⟩
    · rw [List.prefix_nil.mp hpre]
      exact BusDevice.take_address _ _

variable (c) in
theorem enablePec_step (hk : k.Serves dev calm view) (hfuel : 0 < fuel) (state : Byte)
    (r : Option (List Byte)) :
    ∃ c', enablePec k.toAdapter fuel state c = some c' ∧
      FileStep dev calm view (.enablePec state) c r c' := by
  obtain ⟨c₁, hc₁⟩ : ∃ c₁ : I2cCtx S,
      (if c.swPec then { c with pecEnabled := decide (state ≠ 0) } else c) = c₁ := ⟨_, rfl⟩
  have hfile : c₁.file = c.file := by
    rw [← hc₁]
    split <;> rfl
  obtain ⟨hzero, hmem, hpec⟩ := hk.pec c₁.file (decide (state ≠ 0))
  have hrun := onFile_of_not_interrupted (c := c₁) hfuel
    (not_interrupted_of_nonneg (Int.le_of_eq hzero.symm))
  refine ⟨{ c₁ with file := (k.ioctl (.pec (decide (state ≠ 0))) c₁.file).2 }, ?_, hpec,
    hmem.trans (congrArg view.mem hfile)⟩
  simp only [enablePec, smbusPec, hc₁, hrun, Option.bind_eq_bind, Option.bind_some]
  rfl

end I2cdev

open I2cdev

/-- Every call comes back, as a call of the device or as nothing. -/
theorem file_done (hk : k.Serves dev calm view) (hfuel : 0 < fuel)
    (hproper : FileProper dev view c call) :
    ∃ r c', call.onFile k fuel c = some (r, c') ∧ FileStep dev calm view call c r c' := by
  cases call with
  | transaction address t =>
      obtain ⟨r, c', hrun, hdone⟩ := transaction_done address c hk hfuel t hproper.2
      refine ⟨r, c', hrun, hdone.pec, ?_⟩
      by_cases ha : wire address = dev.addr
      · simp only [DeviceCall.fileOp, if_pos ha]
        exact ⟨hdone.called ha (hproper.1 ha), hdone.succeeds ha (hproper.1 ha)⟩
      · simp only [DeviceCall.fileOp, if_neg ha]
        exact (hdone.elsewhere ha).2
  | testAddressAck address =>
      obtain ⟨status, c', hrun, hstep⟩ := testAddressAck_step address c hk hfuel
      exact ⟨_, c', by rw [DeviceCall.onFile, hrun]; rfl, hstep⟩
  | testCommandAck address command =>
      obtain ⟨status, c', hrun, hstep⟩ := testCommandAck_step address command c hk hfuel
      exact ⟨_, c', by rw [DeviceCall.onFile, hrun]; rfl, hstep⟩
  | enablePec state =>
      obtain ⟨c', hrun, hstep⟩ := enablePec_step c hk hfuel state (some [])
      exact ⟨_, c', by rw [DeviceCall.onFile, hrun]; rfl, hstep⟩
  | getLastReadPecFail => exact ⟨_, c, rfl, rfl, rfl⟩

theorem pec_fileTurn (hk : k.Serves dev calm view) (hfuel : 0 < fuel)
    (hproper : FileProper dev view c call) :
    view.pec (fileTurn k fuel c call).file = call.pecAfter (view.pec c.file) := by
  obtain ⟨r, c', hrun, hstep⟩ := file_done hk hfuel hproper
  rw [fileTurn, hrun]
  exact hstep.pec

theorem fileTurn_of_onFile {r : Option (List Byte)} {c' : I2cCtx S}
    (h : call.onFile k fuel c = some (r, c')) : fileTurn k fuel c call = c' := by
  rw [fileTurn, h]
  rfl

/-- A step is a list of calls of the device. -/
theorem fileTurn_called (hk : k.Serves dev calm view) (hfuel : 0 < fuel)
    (hproper : FileProper dev view c call) :
    Calls dev.object (view.mem c.file) (fileEntries dev k view fuel c call)
      (view.mem (fileTurn k fuel c call).file) := by
  obtain ⟨r, c', hrun, hstep⟩ := file_done hk hfuel hproper
  obtain ⟨-, hdone⟩ := hstep
  rw [fileTurn_of_onFile hrun, fileEntries, hrun]
  cases hop : call.fileOp dev (view.pec c.file) with
  | some op =>
      rw [hop] at hdone
      exact hdone.1.calls
  | none =>
      rw [hop] at hdone
      rw [hdone]
      exact .nil _

/-- When nothing gets in the way, it gives their results. -/
theorem fileTurn_refines (hk : k.Serves dev True view) (hfuel : 0 < fuel)
    (hproper : FileProper dev view c call) (hlow : call.Low) :
    fileEntries dev k view fuel c call =
        replies dev.object (view.mem c.file) (call.fileOp dev (view.pec c.file)).toList ∧
      view.mem (fileTurn k fuel c call).file =
        afterAll dev.object (view.mem c.file) (call.fileOp dev (view.pec c.file)).toList := by
  obtain ⟨r, c', hrun, hstep⟩ := file_done hk hfuel hproper
  obtain ⟨-, hdone⟩ := hstep
  rw [fileTurn_of_onFile hrun, fileEntries, hrun]
  cases hop : call.fileOp dev (view.pec c.file) with
  | some op =>
      rw [hop] at hdone
      obtain ⟨hcalled, hsome⟩ := hdone
      have hr := hsome trivial hlow
      generalize view.mem c'.file = m at hcalled ⊢
      cases hcalled with
      | returned => exact ⟨rfl, rfl⟩
      | unseen => exact absurd rfl hr
      | missed => exact absurd rfl hr
  | none =>
      rw [hop] at hdone
      exact ⟨rfl, hdone⟩

/-! ## Runs -/

/-- What a program asks of the device, with the PEC as the program sets it. -/
def fileOps (dev : BusDevice D) (pec : Bool) (calls : List DeviceCall) : List BusOp :=
  history DeviceCall.pecAfter (fun pec call => (call.fileOp dev pec).toList) pec calls

/-- It is what the calls ask for. -/
theorem history_fileOps (hk : k.Serves dev calm view) (hfuel : 0 < fuel) {calls : List DeviceCall}
    (hproper : EveryStep (fileTurn k fuel) (FileProper dev view) c calls) :
    history (fileTurn k fuel) (fun c call => (call.fileOp dev (view.pec c.file)).toList) c calls =
      fileOps dev (view.pec c.file) calls :=
  history_view (fun c : I2cCtx S => view.pec c.file)
    (fun pec call => (call.fileOp dev pec).toList)
    (fun _ _ hproper => pec_fileTurn hk hfuel hproper) hproper

/-- The history of a run is about that. -/
theorem history_fileEntries (hk : k.Serves dev calm view) (hfuel : 0 < fuel)
    {calls : List DeviceCall}
    (hproper : EveryStep (fileTurn k fuel) (FileProper dev view) c calls) :
    (history (fileTurn k fuel) (fileEntries dev k view fuel) c calls).map Prod.fst =
      fileOps dev (view.pec c.file) calls := by
  rw [← history_fileOps hk hfuel hproper]
  induction calls generalizing c with
  | nil => rfl
  | cons call calls ih =>
      obtain ⟨r, c', hrun, -⟩ := file_done hk hfuel hproper.1
      rw [history, history, List.map_append, ih hproper.2, fileEntries, hrun]
      cases call.fileOp dev (view.pec c.file) with
      | some op => rfl
      | none => rfl

/-- Whatever becomes of its transfers, a program knows of the device what its calls return. -/
theorem file_explained (hk : k.Serves dev calm view) (hfuel : 0 < fuel) {calls : List DeviceCall}
    (hproper : EveryStep (fileTurn k fuel) (FileProper dev view) c calls) :
    ∃ es, Explains (history (fileTurn k fuel) (fileEntries dev k view fuel) c calls) es ∧
      Plays dev.object (view.mem c.file) es (view.mem (calls.foldl (fileTurn k fuel) c).file) ∧
      (es.map Prod.fst).Sublist (fileOps dev (view.pec c.file) calls) ∧
      (answered (history (fileTurn k fuel) (fileEntries dev k view fuel) c calls)).Sublist es := by
  have hstep : ∀ (c : I2cCtx S) (call : DeviceCall), True → FileProper dev view c call →
      Calls dev.object (view.mem c.file) (fileEntries dev k view fuel c call)
        (view.mem (fileTurn k fuel c call).file) ∧ True :=
    fun _ _ _ hproper => ⟨fileTurn_called hk hfuel hproper, trivial⟩
  obtain ⟨hcalls, -⟩ := calls_history (fun c : I2cCtx S => view.mem c.file)
    (fun _ => True) hstep trivial hproper
  obtain ⟨es, hex, hplays⟩ := calls_iff.mp hcalls
  refine ⟨es, hex, hplays, ?_, hex.answered_sublist⟩
  rw [← history_fileEntries hk hfuel hproper]
  exact hex.sublist

/-- A driver that was just opened, with a counter on its bus. -/
def counterFile : I2cCtx (BusFile Byte) := ⟨false, false, ⟨0, 0, false, []⟩⟩

theorem counterCalls_fileProper (c : I2cCtx (BusFile Byte)) {call : DeviceCall}
    (h : call ∈ counterCalls) : FileProper .counter (BusFile.view Byte) c call := by
  simp only [counterCalls, List.mem_cons, List.not_mem_nil, or_false] at h
  rcases h with rfl | rfl | rfl | rfl | rfl | rfl
  · trivial
  · exact ⟨fun _ => ⟨rfl, trivial⟩, fun _ _ h => Transaction.noConfusion h⟩
  · exact ⟨fun _ => ⟨rfl, trivial⟩, fun _ _ h => Transaction.noConfusion h⟩
  · trivial
  · exact ⟨fun h => absurd h (by decide), fun _ _ h => Transaction.noConfusion h⟩
  · exact ⟨fun _ => ⟨rfl, show 2 ≤ 64 by decide⟩, fun _ _ h => Transaction.noConfusion h⟩

theorem file_explained_counter :
    let k := BusFile.adapter .counter
    let view := BusFile.view Byte
    ∃ es, Explains (history (fileTurn k 1) (fileEntries .counter k view 1) counterFile counterCalls)
        es ∧
      Plays BusDevice.counter.object 0 es
        (view.mem (counterCalls.foldl (fileTurn k 1) counterFile).file) ∧
      (es.map Prod.fst).Sublist (fileOps .counter false counterCalls) ∧
      (answered (history (fileTurn k 1) (fileEntries .counter k view 1) counterFile
        counterCalls)).Sublist es := by
  refine file_explained (BusFile.serves .counter) Nat.one_pos (c := counterFile) ?_
  simp only [counterCalls, everyStep_cons]
  exact ⟨counterCalls_fileProper _ (by decide), counterCalls_fileProper _ (by decide),
    counterCalls_fileProper _ (by decide), counterCalls_fileProper _ (by decide),
    counterCalls_fileProper _ (by decide), counterCalls_fileProper _ (by decide), trivial⟩

/-- When nothing gets in the way, the program has the device to itself. -/
theorem file_refines (hk : k.Serves dev True view) (hfuel : 0 < fuel) {calls : List DeviceCall}
    (hproper : EveryStep (fileTurn k fuel) (fun c call => FileProper dev view c call ∧ call.Low)
      c calls) :
    history (fileTurn k fuel) (fileEntries dev k view fuel) c calls =
        replies dev.object (view.mem c.file) (fileOps dev (view.pec c.file) calls) ∧
      view.mem (calls.foldl (fileTurn k fuel) c).file =
        afterAll dev.object (view.mem c.file) (fileOps dev (view.pec c.file) calls) := by
  have hstep : ∀ (c : I2cCtx S) (call : DeviceCall), True →
      FileProper dev view c call ∧ call.Low →
      fileEntries dev k view fuel c call = replies dev.object (view.mem c.file)
          (call.fileOp dev (view.pec c.file)).toList ∧
        view.mem (fileTurn k fuel c call).file = afterAll dev.object (view.mem c.file)
          (call.fileOp dev (view.pec c.file)).toList ∧ True := by
    rintro c call - ⟨hproper, hlow⟩
    obtain ⟨hentries, hmem⟩ := fileTurn_refines hk hfuel hproper hlow
    exact ⟨hentries, hmem, trivial⟩
  have hrun := history_of_returned (fun c : I2cCtx S => view.mem c.file)
    (fun _ => True) hstep trivial hproper
  rwa [history_fileOps hk hfuel (hproper.imp And.left)] at hrun

theorem file_refines_counter :
    let k := BusFile.adapter .counter
    let view := BusFile.view Byte
    history (fileTurn k 1) (fileEntries .counter k view 1) counterFile counterCalls =
        replies BusDevice.counter.object 0 (fileOps .counter false counterCalls) ∧
      view.mem (counterCalls.foldl (fileTurn k 1) counterFile).file =
        afterAll BusDevice.counter.object 0 (fileOps .counter false counterCalls) := by
  refine file_refines (BusFile.serves .counter) Nat.one_pos (c := counterFile) ?_
  simp only [counterCalls, everyStep_cons]
  exact ⟨⟨counterCalls_fileProper _ (by decide), trivial⟩,
    ⟨counterCalls_fileProper _ (by decide), show 0x16#32 < 0x100 by decide⟩,
    ⟨counterCalls_fileProper _ (by decide), show 0x16#32 < 0x100 by decide⟩,
    ⟨counterCalls_fileProper _ (by decide), show 0x16#32 < 0x100 by decide⟩,
    ⟨counterCalls_fileProper _ (by decide), show 0x18#32 < 0x100 by decide⟩,
    ⟨counterCalls_fileProper _ (by decide), show 0x16#32 < 0x100 by decide⟩, trivial⟩

/-! ## Both drivers -/

/-- A call that is the same with both drivers. -/
def Common (dev : BusDevice D) (pec : Bool) : DeviceCall → Prop
  | .transaction address _ => address < 0x100 ∧ address.getLsbD 0 = false
  | .testCommandAck address command =>
      address < 0x100 ∧ address.getLsbD 0 = false ∧
        dev.probed pec command = dev.probed false command
  | _ => True

theorem Common.low {pec : Bool} (h : Common dev pec call) : call.Low := by
  cases call with
  | transaction address t => exact h.1
  | testCommandAck address command => exact h.1
  | _ => trivial

/-- It has the device do the same. -/
theorem Common.fileOp {pec : Bool} (h : Common dev pec call) :
    call.fileOp dev pec = call.op dev := by
  cases call with
  | transaction address t => simp only [DeviceCall.fileOp, DeviceCall.op, wire_even h.2]
  | testCommandAck address command =>
      obtain ⟨-, heven, hprobed⟩ := h
      simp only [DeviceCall.fileOp, DeviceCall.op, wire_even heven, hprobed,
        BusDevice.probed_false]
      by_cases haddr : address.setWidth 8 = dev.addr
      · simp only [haddr, if_true, true_and]
        split
        · rfl
        · rfl
      · simp only [haddr, if_false, false_and]
  | testAddressAck address => rfl
  | enablePec state => rfl
  | getLastReadPecFail => rfl

end

end Smbusb
