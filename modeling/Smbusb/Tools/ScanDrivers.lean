import Smbusb.Tools.ScanAddress

/-!
# Scans with the two drivers

What a scan reports is decided by `Probe.line`: 0xFF is an ACK and a negative value is an
error.  The firmware replies 0xFF and 0 for a byte that was ACKed and one that was not, and
so with the FX2LP driver the report is right (`fx2lp_status`).

The I2CDEV driver hands on what `ioctl` returns, which is 0 for an ACK and negative for a
NACK (`i2cdev_address`, `i2cdev_command`).  So with it a scan never reports an ACK, and
reports an error for what is not there.  `scanDrivers_iff` says for which sets of addresses
and commands the two agree with what the target does all the same.

*Addresses.*  The FX2LP driver sends the probed value as it is.  The kernel takes an address
without the direction bit, so the I2CDEV driver probes the even address.  It takes seven bits, and
refuses an address above 0x7F: no scan from 0 to 0xFF asks for one.

*Skip lists.*  An entry outside of `skipMap` is a store past the array.  A scan with one reports
nothing that could be relied on, with either driver.
-/

namespace Smbusb

open Logic Prog Fw

/-! ## The targets and the kernel -/

/-- A target that ACKs these address bytes, and answers in time. -/
structure AcksAddresses (T : Target) (acks : Byte → Bool) : Prop where
  start : ∀ tr, T.start tr = false
  out : ∀ tr b, (T.out (tr ++ [.start false]) b).1 ≤ i2cTimeout ∧
    ((T.out (tr ++ [.start false]) b).2 = .ack ↔ acks b = true)

/-- A target at an address that ACKs these commands, and answers in time. -/
structure AcksCommands (T : Target) (addr : Byte) (acks : Byte → Bool) : Prop where
  start : ∀ tr, T.start tr = false
  address : ∀ tr, (T.out (tr ++ [.start false]) addr).1 ≤ i2cTimeout ∧
    (T.out (tr ++ [.start false]) addr).2 = .ack
  out : ∀ tr b, (T.out (tr ++ [.start false] ++ [.sent addr (some .ack)]) b).1 ≤ i2cTimeout ∧
    ((T.out (tr ++ [.start false] ++ [.sent addr (some .ack)]) b).2 = .ack ↔ acks b = true)

/-- `ioctl` says with 0 that a transfer was ACKed, and with a negative value that it was
not. -/
def IoctlResult.Tells (r : IoctlResult) (ack : Bool) : Prop :=
  if ack then r.ret = 0 else r.ret < 0 ∧ ¬ r.Interrupted

/-- The kernel on a bus where these address bytes are ACKed: `I2C_SLAVE` sets an address of seven
bits, and a quick write says whether it is there. -/
structure Adapter.ProbesAddresses {S : Type} (k : Adapter S) (acks : Byte → Bool) : Prop where
  slave : ∀ a ≤ 0x7F, ∀ s, (k.ioctl (.slave a) s).1.ret = 0
  quick : ∀ a ≤ 0x7F, ∀ s,
    (k.ioctl (.smbus i2cSmbusWrite 0 .quick) (k.ioctl (.slave a) s).2).1.Tells
      (acks (toByte (a <<< 1)))

/-- The kernel on a bus where a target ACKs these commands at the address `a`. -/
structure Adapter.ProbesCommands {S : Type} (k : Adapter S) (a : Word) (acks : Byte → Bool) :
    Prop where
  slave : ∀ s, (k.ioctl (.slave a) s).1.ret = 0
  byte : ∀ b s, (k.ioctl (.smbus i2cSmbusWrite b .byte) (k.ioctl (.slave a) s).2).1.Tells (acks b)

/-! ## The FX2LP driver -/

section Fx2lpSide

variable {T : Target} {acks : Byte → Bool}

theorem i2cByteout_of_answer {s : I2c} {b : Byte} (htime : (T.out s.trace b).1 ≤ i2cTimeout) :
    (i2cByteout T b s).1 = decide ((T.out s.trace b).2 = .ack) ∧
      (i2cByteout T b s).2.trace = s.trace ++ [.sent b (some (T.out s.trace b).2)] := by
  simp [i2cByteout, I2c.await, htime]

theorem i2cStart_of_start (h : ∀ tr, T.start tr = false) (s : I2c) :
    i2cStart T s = (true, s.log (.start false)) := by
  simp [i2cStart, i2cMaxRetries, i2cStartTries, h]

theorem AcksAddresses.probeFrame (h : AcksAddresses T acks) (b : Byte) (s : I2c) :
    (Smbusb.probeFrame T [b] s).1 = some (acks b) := by
  obtain ⟨htime, hack⟩ := h.out s.trace b
  have hbyte := (i2cByteout_of_answer (s := s.log (.start false)) htime).1
  rw [Smbusb.probeFrame, i2cStart_of_start h.start, if_pos rfl]
  simp only [sendAll, hbyte, I2c.log_trace, hack]
  cases acks b <;> rfl

theorem AcksCommands.probeFrame {addr : Byte} (h : AcksCommands T addr acks) (b : Byte) (s : I2c) :
    (Smbusb.probeFrame T [addr, b] s).1 = some (acks b) := by
  obtain ⟨htime, hack⟩ := h.address s.trace
  obtain ⟨hok, htrace⟩ := i2cByteout_of_answer (s := s.log (.start false)) htime
  rw [I2c.log_trace, hack] at htrace
  obtain ⟨htime', hack'⟩ := h.out s.trace b
  rw [← htrace] at htime' hack'
  have hbyte := (i2cByteout_of_answer htime').1
  rw [Smbusb.probeFrame, i2cStart_of_start h.start, if_pos rfl]
  simp only [sendAll, hok, I2c.log_trace, hack, decide_true, if_true, hbyte, hack']
  cases acks b <;> rfl

/-- The status of a probe with the FX2LP driver. -/
def probeStatus (ack : Bool) : Int := if ack then 0xFF else 0

/-- The reply of a probe. -/
theorem probed_reply (s : Fx2) {r : Option Bool × I2c} {ack : Bool} (h : r.1 = some ack) :
    (s.probed r).reply 1 = [if ack then 0xFF else 0] := by
  simp [Fx2.probed, h, Fx2.reply, Mem.read]

/-- What the host makes of a probe that was delivered. -/
theorem usb_inp_probe {way : Nat → Delivery} (hdel : ∀ k, (way k).fate = .delivered) {cmd : Byte}
    (setup : Setup) {l : Link} {r : Option Bool × I2c} {ack : Bool} (h : r.1 = some ack)
    (hserve : serve T cmd setup (l.fx2.tick (way l.sent).gap) =
      (r.1.isSome, (l.fx2.tick (way l.sent).gap).probed r)) :
    ((usb T way).inp cmd setup 1 l).1 = (1, [if ack then 0xFF else 0]) := by
  have harr : (way l.sent).fate.arrives = true := by rw [hdel]; rfl
  obtain ⟨status, -, hinp⟩ := usb_inp_served way 1 harr hserve
  rw [hinp, h, if_pos ⟨rfl, hdel _⟩, probed_reply _ h]
  rfl

theorem leInt_probe (ack : Bool) : Fx2lp.leInt [if ack then 0xFF else 0] = probeStatus ack := by
  cases ack <;> rfl

theorem fx2lp_address {way : Nat → Delivery} (hdel : ∀ k, (way k).fate = .delivered)
    (h : AcksAddresses T acks) (address : UInt) (l : Link) :
    (Fx2lp.testAddressAck (usb T way) address l).1 =
      probeStatus (acks (toByte (address.setWidth 16))) := by
  have hinp := usb_inp_probe hdel (Fx2lp.setupOf address 0)
    (h.probeFrame (toByte (address.setWidth 16)) (l.fx2.tick (way l.sent).gap).toI2c)
    (serve_of_run smbTestAddressAck (testAddressAck_eq (address.setWidth 16) _))
  have hres : (Fx2lp.testAddressAck (usb T way) address l).1 =
      (fun r : Int × List Byte => if r.1 = 1 then Fx2lp.leInt r.2 else r.1)
        ((usb T way).inp smbTestAddressAck (Fx2lp.setupOf address 0) 1 l).1 := rfl
  rw [hres, hinp]
  exact leInt_probe _

theorem fx2lp_command {way : Nat → Delivery} (hdel : ∀ k, (way k).fate = .delivered)
    {address : UInt} (h : AcksCommands T (toByte (address.setWidth 16)) acks) (command : Byte)
    (l : Link) :
    (Fx2lp.testCommandAck (usb T way) address command l).1 = probeStatus (acks command) := by
  have hcmd : toByte (command.setWidth 16) = command := by
    rw [toByte, BitVec.setWidth_setWidth_of_le command (by decide), BitVec.setWidth_eq]
  have hprobe := h.probeFrame (toByte (command.setWidth 16)) (l.fx2.tick (way l.sent).gap).toI2c
  rw [hcmd] at hprobe
  have hrun := testCommandAck_eq (T := T) (address.setWidth 16) (command.setWidth 16)
    (l.fx2.tick (way l.sent).gap)
  rw [hcmd] at hrun
  have hinp := usb_inp_probe hdel (Fx2lp.setupOf address command) hprobe
    (serve_of_run smbTestCommandAck hrun)
  have hres : (Fx2lp.testCommandAck (usb T way) address command l).1 =
      (fun r : Int × List Byte => if r.1 = 1 then Fx2lp.leInt r.2 else r.1)
        ((usb T way).inp smbTestCommandAck (Fx2lp.setupOf address command) 1 l).1 := rfl
  rw [hres, hinp]
  exact leInt_probe _

end Fx2lpSide

/-! ## The I2CDEV driver -/

section I2cdevSide

variable {S : Type} {k : Adapter S} {acks : Byte → Bool} {fuel : Nat}

/-- The status of a probe with the I2CDEV driver: that of `ioctl`. -/
def Told (ack : Bool) (status : Int) : Prop := if ack then status = 0 else status < 0

theorem IoctlResult.Tells.told {r : IoctlResult} {ack : Bool} (h : r.Tells ack) :
    ¬ r.Interrupted ∧ Told ack r.ret := by
  cases ack with
  | true => exact ⟨I2cdev.not_interrupted_of_nonneg (Int.le_of_eq h.symm), h⟩
  | false => exact ⟨h.2, h.1⟩

/-- The kernel gets the address without its direction bit. -/
theorem evenAddress (a : Word) : toByte ((a >>> 1) <<< 1) = toByte a &&& 0xFE := by
  apply BitVec.eq_of_getLsbD_eq
  intro i hi
  have hmask : (0xFE : Byte).getLsbD i = decide (1 ≤ i) := by
    interval_cases i <;> rfl
  rw [BitVec.getLsbD_and, hmask]
  cases i with
  | zero => simp [toByte]
  | succ i =>
      have h1 : i + 1 < 16 := by omega
      have h2 : i < 16 := by omega
      simp [toByte, Nat.add_comm 1 i, hi, h1, h2]

/-- `I2C_SLAVE` and one `I2C_SMBUS` behind it. -/
theorem i2cdev_probe {a : Word} {command : Byte} {size : SmbusSize} {ack : Bool} (hfuel : 0 < fuel)
    (c : I2cCtx S) (hslave : (k.ioctl (.slave a) c.file).1.ret = 0)
    (hprobe : (k.ioctl (.smbus i2cSmbusWrite command size)
      (k.ioctl (.slave a) c.file).2).1.Tells ack) :
    ∃ c₁ status c', I2cdev.onFile k fuel (.slave a) c = some (0, c₁) ∧
      I2cdev.smbusAccess k fuel i2cSmbusWrite command size c₁ = some (status, c') ∧
      Told ack status := by
  obtain ⟨hnot, htold⟩ := hprobe.told
  have h1 := I2cdev.onFile_of_not_interrupted (c := c) hfuel
    (I2cdev.not_interrupted_of_nonneg (Int.le_of_eq hslave.symm))
  rw [hslave] at h1
  exact ⟨_, _, _, h1,
    I2cdev.onFile_of_not_interrupted (c := { c with file := _ }) hfuel hnot, htold⟩

theorem i2cdev_address (hfuel : 0 < fuel) (h : k.ProbesAddresses acks) {address : UInt}
    (hseven : (address.setWidth 16 : Word) >>> 1 ≤ 0x7F) (c : I2cCtx S) :
    ∃ status c', I2cdev.testAddressAck k fuel address c = some (status, c') ∧
      Told (acks (toByte (address.setWidth 16) &&& 0xFE)) status := by
  have hquick := h.quick _ hseven c.file
  rw [evenAddress] at hquick
  obtain ⟨c₁, status, c', hslave, hprobe, htold⟩ :=
    i2cdev_probe hfuel c (h.slave _ hseven c.file) hquick
  refine ⟨status, c', ?_, htold⟩
  simp only [I2cdev.testAddressAck, I2cdev.smbusAddress, hslave, bind, Option.bind]
  exact hprobe

theorem i2cdev_command {address : UInt} (hfuel : 0 < fuel)
    (h : k.ProbesCommands ((address.setWidth 16 : Word) >>> 1) acks) (command : Byte)
    (c : I2cCtx S) :
    ∃ status c', I2cdev.testCommandAck k fuel address command c = some (status, c') ∧
      Told (acks command) status := by
  obtain ⟨c₁, status, c', hslave, hprobe, htold⟩ :=
    i2cdev_probe hfuel c (h.slave c.file) (h.byte command c.file)
  refine ⟨status, c', ?_, htold⟩
  simp only [I2cdev.testCommandAck, I2cdev.smbusAddress, hslave, bind, Option.bind]
  exact hprobe

end I2cdevSide

/-! ## Reports -/

/-- A scan reports an ACK for exactly the values that are ACKed, and no error for the
others.  It stays inside of `skipMap`. -/
structure Reports (acks : Byte → Bool) (run : ScanRun) : Prop where
  inside : run.oob = false
  ack : ∀ p ∈ run.probes,
    (p.line = some (.ack p.value) ↔ acks (BitVec.ofInt 8 p.value) = true)
  error : ∀ p ∈ run.probes, acks (BitVec.ofInt 8 p.value) = false →
    ∀ status, p.line ≠ some (.error p.value status)

section Lines

variable {acks : Byte → Bool} {run : ScanRun}

/-- The firmware's replies are what the tool looks for. -/
theorem reports_probeStatus_iff
    (h : ∀ p ∈ run.probes, p.status = probeStatus (acks (BitVec.ofInt 8 p.value))) :
    Reports acks run ↔ run.oob = false := by
  refine ⟨Reports.inside, fun hinside => ⟨hinside, fun p hp => ?_, fun p hp hack status => ?_⟩⟩
  · rw [Probe.line, h p hp]
    cases acks (BitVec.ofInt 8 p.value) with
    | true => exact iff_of_true rfl rfl
    | false => exact iff_of_false (fun h => nomatch h) Bool.false_ne_true
  · rw [Probe.line, h p hp, hack]
    exact fun h => nomatch h

/-- What `ioctl` returns is right only where the kernel is told of an ACK that the probed
value itself does not give. -/
theorem reports_told_iff (told : Int → Bool)
    (h : ∀ p ∈ run.probes, Told (told p.value) p.status) :
    Reports acks run ↔ run.oob = false ∧ ∀ i ∈ run.probes.map Probe.value,
      acks (BitVec.ofInt 8 i) = false ∧ told i = true := by
  have hline : ∀ p ∈ run.probes,
      p.line = if told p.value then none else some (.error p.value p.status) := by
    intro p hp
    have hp' := h p hp
    rw [Told] at hp'
    rw [Probe.line]
    cases htold : told p.value with
    | true =>
        rw [htold, if_pos rfl] at hp'
        rw [hp']
        rfl
    | false =>
        rw [htold, if_neg Bool.false_ne_true] at hp'
        rw [if_pos hp']
        rfl
  constructor
  · intro hrep
    refine ⟨hrep.inside, fun i hi => ?_⟩
    obtain ⟨p, hp, rfl⟩ := List.mem_map.mp hi
    have hack := hrep.ack p hp
    rw [hline p hp] at hack
    have hfalse : acks (BitVec.ofInt 8 p.value) = false := by
      cases htold : told p.value with
      | true =>
          rw [htold] at hack
          exact Bool.eq_false_iff.mpr fun h => nomatch hack.mpr h
      | false =>
          rw [htold] at hack
          exact Bool.eq_false_iff.mpr fun h => nomatch hack.mpr h
    refine ⟨hfalse, ?_⟩
    by_contra htold
    have herr := hrep.error p hp hfalse p.status
    rw [hline p hp, if_neg htold] at herr
    exact herr rfl
  · rintro ⟨hinside, hall⟩
    have hnone : ∀ p ∈ run.probes, p.line = none ∧ acks (BitVec.ofInt 8 p.value) = false := by
      intro p hp
      obtain ⟨hack, htold⟩ := hall p.value (List.mem_map_of_mem hp)
      rw [hline p hp, htold]
      exact ⟨rfl, hack⟩
    refine ⟨hinside, fun p hp => ?_, fun p hp _ status => ?_⟩
    · obtain ⟨hl, hack⟩ := hnone p hp
      rw [hl, hack]
      exact iff_of_false (fun h => nomatch h) Bool.false_ne_true
    · rw [(hnone p hp).1]
      exact fun h => nomatch h

end Lines

/-! ## The two drivers -/

section Drivers

variable {S : Type} {stack : Int → Byte} {opts : List ScanOption} {v : ScanVars}

/-- The commands that a scan is to probe. -/
def expectedCommands (g : Given) : List Int :=
  (scanValues 0 256).filter fun i => g.begin ≤ i ∧ i ≤ g.endAt ∧ i ∉ g.skip

theorem stored_of_inside {n : Int} (h : ¬ Outside n) : stored n = n := by
  rw [Outside] at h
  have hclamp : max (-2 ^ 63) (min (2 ^ 63 - 1) n) = n := by omega
  rw [stored, hclamp, toInt, BitVec.toInt_ofInt, Int.bmod_eq_of_le] <;> omega

/-- A scan makes every probe it is to make, and its statuses are those of the driver. -/
theorem scanLoop_statuses {skipMap : Int → Byte} {test : Int → S → Option (Int × S)}
    (Q : Int → Int → Prop) (n : Nat) (i : Int) (htest : ∀ x ∈ scanValues i n, ∀ s,
      ∃ status s', test x s = some (status, s') ∧ Q x status) (oob : Bool) (s : S) :
    ∃ run s', scanLoop skipMap test n i ⟨[], oob⟩ s = some (run, s') ∧
      (∀ p ∈ run.probes, Q p.value p.status) ∧
      run.probes.map Probe.value = (scanValues i n).filter (fun x => skipMap x ≠ 0xFF) ∧
      (run.oob = false ↔ oob = false ∧ ∀ x ∈ scanValues i n, ¬ Outside x) := by
  have hstep : ∀ x ∈ scanValues i n, ∀ (ps : List Probe) s, skipMap x ≠ 0xFF →
      (∀ p ∈ ps, Q p.value p.status) → ∃ status s', test x s = some (status, s') ∧
        ∀ p ∈ ps ++ [⟨x, status⟩], Q p.value p.status := by
    intro x hmem ps s _ hps
    obtain ⟨status, s', hx, hQ⟩ := htest x hmem s
    refine ⟨status, s', hx, ?_⟩
    rw [List.forall_mem_append]
    exact ⟨hps, fun p hp => by rw [List.mem_singleton.mp hp]; exact hQ⟩
  obtain ⟨run, s', hrun, hall, hvalues, hoob⟩ := scanLoop_run skipMap test
    (fun ps _ => ∀ p ∈ ps, Q p.value p.status) n i hstep ⟨[], oob⟩ s
    (fun p hp => absurd hp List.not_mem_nil)
  exact ⟨run, s', hrun, hall, hvalues, hoob⟩

/-- The numbers of a range from 0 to 0xFF are kept as they are. -/
structure Given.InRange (g : Given) : Prop where
  begin : ¬ Outside g.begin
  endAt : ¬ Outside g.endAt

theorem Given.InRange.inside {g : Given} (h : g.InRange) {i : Int}
    (hi : stored g.begin ≤ i ∧ i ≤ stored g.endAt) : ¬ Outside i := by
  rw [stored_of_inside h.begin, stored_of_inside h.endAt] at hi
  have hb := h.begin
  have he := h.endAt
  rw [Outside] at hb he ⊢
  omega

/-- No entry of a skip list is past the end of `skipMap`. -/
def Given.SkipsInside (g : Given) : Prop := ∀ x ∈ g.skip, ¬ Outside x

instance (g : Given) : Decidable g.SkipsInside :=
  inferInstanceAs (Decidable (∀ x ∈ g.skip, ¬ Outside x))

/-- The values between the two numbers are inside. -/
theorem Represents.inside {g : Given} (h : Represents g v) (hg : g.InRange) :
    ∀ x ∈ scanValues v.start (scanTurns v.start v.endAt), ¬ Outside x := by
  intro x hx
  have hrange := mem_scanRange.mp hx
  rw [h.start, h.endAt] at hrange
  exact hg.inside hrange

/-- A scan of such a range stays inside of `skipMap` if and only if its skip lists do. -/
theorem Represents.oob_iff {g : Given} (h : Represents g v) (hg : g.InRange) {oob : Bool}
    (hoob : oob = false ↔ v.oob = false ∧
      ∀ x ∈ scanValues v.start (scanTurns v.start v.endAt), ¬ Outside x) :
    oob = false ↔ g.SkipsInside :=
  hoob.trans ((and_iff_left (h.inside hg)).trans h.oob)

/-- The values of a command scan. -/
theorem Represents.commandValues {g : Given} (h : Represents g v) (hg : g.InRange) :
    (scanValues v.start (scanTurns v.start v.endAt)).filter (fun x => v.skipMap x ≠ 0xFF) =
      expectedCommands g := by
  have hsorted : (expectedCommands g).Pairwise (· < ·) := (pairwise_scanValues 0 256).filter _
  refine ((pairwise_scanValues _ _).filter _).eq_of_mem_iff hsorted fun i => ?_
  rw [expectedCommands, List.mem_filter, List.mem_filter, mem_scanRange, mem_scanValues, h.start,
    h.endAt, decide_eq_true_eq, decide_eq_true_eq, stored_of_inside hg.begin,
    stored_of_inside hg.endAt]
  constructor
  · rintro ⟨⟨hb, he⟩, hmap⟩
    have hi : ¬ Outside i := hg.inside (by
      rw [stored_of_inside hg.begin, stored_of_inside hg.endAt]
      exact ⟨hb, he⟩)
    refine ⟨?_, hb, he, fun hskip => hmap ((h.skipMap i hi).mpr hskip)⟩
    rw [Outside] at hi
    omega
  · rintro ⟨hi, hb, he, hskip⟩
    have hi' : ¬ Outside i := by
      rw [Outside]
      omega
    exact ⟨⟨hb, he⟩, fun hmap => hskip ((h.skipMap i hi').mp hmap)⟩

variable (drv : ScanDriver S)

/-- The run of an address scan over a range from 0 to 0xFF. -/
theorem scan_address_statuses (hopts : scanOptions opts (ScanVars.init stack) = some v)
    (hmode : v.scanMode = some .address) (hg : (given opts).InRange) (Q : Int → Int → Prop)
    (htest : ∀ x, ¬ Outside x → ∀ s, ∃ status s',
      drv.testAddressAck (BitVec.ofInt 32 x) s = some (status, s') ∧ Q x status) (s : S) :
    ∃ run s', scan drv stack opts s = some (run, s') ∧ (∀ p ∈ run.probes, Q p.value p.status) ∧
      run.probes.map Probe.value = expectedAddresses (given opts) ∧
      (run.oob = false ↔ (given opts).SkipsInside) := by
  have hv : Represents (given opts) v := (represents_init stack).options hopts
  rw [scan_address drv hopts hmode s, ← hv.addressValues (fun _ hi => hg.inside hi) ?_]
  · obtain ⟨run, s', hrun, hall, hvalues, hoob⟩ := scanLoop_statuses Q _ _
      (fun x hx => htest x (hv.inside hg x hx)) _ s
    exact ⟨run, s', hrun, hall, hvalues, hv.oob_iff hg hoob⟩
  · intro i _ _ _ _
    rw [stored_of_inside hg.begin, stored_of_inside hg.endAt]

/-- The run of a command scan over a range from 0 to 0xFF. -/
theorem scan_command_statuses (hopts : scanOptions opts (ScanVars.init stack) = some v)
    (hmode : v.scanMode = some .command) (hg : (given opts).InRange) (Q : Int → Int → Prop)
    (htest : ∀ x s, ∃ status s',
      drv.testCommandAck (BitVec.ofInt 32 v.address) (BitVec.ofInt 8 x) s = some (status, s') ∧
        Q x status) (s : S) :
    ∃ run s', scan drv stack opts s = some (run, s') ∧ (∀ p ∈ run.probes, Q p.value p.status) ∧
      run.probes.map Probe.value = expectedCommands (given opts) ∧
      (run.oob = false ↔ (given opts).SkipsInside) := by
  have hv : Represents (given opts) v := (represents_init stack).options hopts
  have hne : opts ≠ [] := by
    rintro rfl
    cases hopts
    cases hmode
  rw [scan, if_neg hne, hopts, Option.bind_some, scanWith, hmode, ← hv.commandValues hg]
  obtain ⟨run, s', hrun, hall, hvalues, hoob⟩ := scanLoop_statuses Q _ _ (fun x _ => htest x) _ s
  exact ⟨run, s', hrun, hall, hvalues, hv.oob_iff hg hoob⟩

end Drivers

section Main

variable {S : Type} {T : Target} {way : Nat → Delivery} {k : Adapter S} {fuel : Nat}
  {acks : Byte → Bool} {stack : Int → Byte} {opts : List ScanOption} {v : ScanVars}

/-- The I2CDEV driver. -/
def i2cdevScanDriver (k : Adapter S) (fuel : Nat) : ScanDriver (I2cCtx S) where
  testAddressAck := I2cdev.testAddressAck k fuel
  testCommandAck := I2cdev.testCommandAck k fuel
  testCommandWrite := I2cdev.testCommandWrite k fuel

/-- With both drivers a scan reports what the target does. -/
def SameReports (T : Target) (way : Nat → Delivery) (k : Adapter S) (fuel : Nat)
    (acks : Byte → Bool) (stack : Int → Byte) (opts : List ScanOption) (l : Link)
    (c : I2cCtx S) : Prop :=
  (∃ run l', scan (fx2lpScanDriver T way) stack opts l = some (run, l') ∧ Reports acks run) ∧
    ∃ run c', scan (i2cdevScanDriver k fuel) stack opts c = some (run, c') ∧ Reports acks run

/-- What the two scans do decides. -/
theorem sameReports_iff_of_scans {l l' : Link} {c c' : I2cCtx S} {run run' : ScanRun}
    (hfx : scan (fx2lpScanDriver T way) stack opts l = some (run, l'))
    (hi2c : scan (i2cdevScanDriver k fuel) stack opts c = some (run', c')) :
    SameReports T way k fuel acks stack opts l c ↔ Reports acks run ∧ Reports acks run' := by
  constructor
  · rintro ⟨⟨run₁, l₁, hrun₁, hrep₁⟩, run₂, c₂, hrun₂, hrep₂⟩
    obtain ⟨rfl, rfl⟩ := Prod.mk.inj (Option.some.inj (hfx.symm.trans hrun₁))
    obtain ⟨rfl, rfl⟩ := Prod.mk.inj (Option.some.inj (hi2c.symm.trans hrun₂))
    exact ⟨hrep₁, hrep₂⟩
  · exact fun ⟨hrep, hrep'⟩ => ⟨⟨run, l', hfx, hrep⟩, run', c', hi2c, hrep'⟩

theorem toByte_ofInt (i : Int) : toByte ((BitVec.ofInt 32 i).setWidth 16) = BitVec.ofInt 8 i := by
  apply BitVec.eq_of_toNat_eq
  simp only [toByte, BitVec.toNat_setWidth, BitVec.toNat_ofInt]
  omega

/-- The kernel is asked for the seven bits of an address byte. -/
theorem sevenBits {i : Int} (hi : ¬ Outside i) :
    ((BitVec.ofInt 32 i).setWidth 16 : Word) >>> 1 ≤ 0x7F := by
  obtain ⟨n, rfl⟩ := Int.eq_ofNat_of_zero_le (Int.not_lt.mp (not_or.mp hi).1)
  have hn : n ≤ 255 := Int.ofNat_le.mp (Int.not_lt.mp (not_or.mp hi).2)
  rw [BitVec.le_def, BitVec.toNat_ushiftRight, BitVec.toNat_setWidth, BitVec.ofInt_natCast,
    BitVec.toNat_ofNat, Nat.shiftRight_eq_div_pow]
  change n % 2 ^ 32 % 2 ^ 16 / 2 ^ 1 ≤ 0x7F
  omega

theorem addressReports_iff (hdel : ∀ k, (way k).fate = .delivered) (hfuel : 0 < fuel)
    (hopts : scanOptions opts (ScanVars.init stack) = some v)
    (hmode : v.scanMode = some .address) (hg : (given opts).InRange)
    (hT : AcksAddresses T acks) (hk : k.ProbesAddresses acks) (l : Link) (c : I2cCtx S) :
    SameReports T way k fuel acks stack opts l c ↔
      (given opts).SkipsInside ∧ ∀ i ∈ expectedAddresses (given opts),
        acks (BitVec.ofInt 8 i) = false ∧ acks (BitVec.ofInt 8 i &&& 0xFE) = true := by
  obtain ⟨run, l', hfx, hstatus, -, hoob⟩ := scan_address_statuses (fx2lpScanDriver T way) hopts
    hmode hg (fun x status => status = probeStatus (acks (BitVec.ofInt 8 x)))
    (fun x _ l => ⟨_, _, rfl, by rw [← toByte_ofInt]; exact fx2lp_address hdel hT _ l⟩) l
  obtain ⟨run', c', hi2c, htold, hvalues, hoob'⟩ := scan_address_statuses
    (i2cdevScanDriver k fuel) hopts hmode hg
    (fun x status => Told (acks (BitVec.ofInt 8 x &&& 0xFE)) status)
    (fun x hx c => by rw [← toByte_ofInt]; exact i2cdev_address hfuel hk (sevenBits hx) c) c
  rw [sameReports_iff_of_scans hfx hi2c, reports_probeStatus_iff hstatus,
    reports_told_iff (fun i => acks (BitVec.ofInt 8 i &&& 0xFE)) htold, hvalues, hoob, hoob',
    and_self_left]

theorem commandReports_iff (hdel : ∀ k, (way k).fate = .delivered) (hfuel : 0 < fuel)
    (hopts : scanOptions opts (ScanVars.init stack) = some v)
    (hmode : v.scanMode = some .command) (hg : (given opts).InRange)
    (hT : AcksCommands T (BitVec.ofInt 8 v.address) acks)
    (hk : k.ProbesCommands (((BitVec.ofInt 32 v.address).setWidth 16 : Word) >>> 1) acks)
    (l : Link) (c : I2cCtx S) :
    SameReports T way k fuel acks stack opts l c ↔
      (given opts).SkipsInside ∧ expectedCommands (given opts) = [] := by
  rw [← toByte_ofInt] at hT
  obtain ⟨run, l', hfx, hstatus, -, hoob⟩ := scan_command_statuses (fx2lpScanDriver T way) hopts
    hmode hg (fun x status => status = probeStatus (acks (BitVec.ofInt 8 x)))
    (fun x l => ⟨_, _, rfl, fx2lp_command hdel hT _ l⟩) l
  obtain ⟨run', c', hi2c, htold, hvalues, hoob'⟩ := scan_command_statuses
    (i2cdevScanDriver k fuel) hopts hmode hg
    (fun x status => Told (acks (BitVec.ofInt 8 x)) status)
    (fun x c => i2cdev_command hfuel hk _ c) c
  have hnone : (∀ i ∈ expectedCommands (given opts),
      acks (BitVec.ofInt 8 i) = false ∧ acks (BitVec.ofInt 8 i) = true) ↔
      expectedCommands (given opts) = [] := by
    rw [List.eq_nil_iff_forall_not_mem]
    refine forall_congr' fun i => ?_
    refine imp_congr_right fun _ => iff_false_intro ?_
    rintro ⟨h0, h1⟩
    rw [h0] at h1
    exact Bool.noConfusion h1
  rw [sameReports_iff_of_scans hfx hi2c, reports_probeStatus_iff hstatus,
    reports_told_iff (fun i => acks (BitVec.ofInt 8 i)) htold, hvalues, hoob, hoob', hnone,
    and_self_left]

/-- When a scan over a range from 0 to 0xFF reports the same with the two drivers, and what
the target does.  No skip list may lead out of `skipMap`.  A command scan has to be empty.  An
address scan may only probe odd addresses whose even address is there and they are not. -/
theorem scanDrivers_iff (hdel : ∀ k, (way k).fate = .delivered) (hfuel : 0 < fuel)
    (hopts : scanOptions opts (ScanVars.init stack) = some v) (hg : (given opts).InRange)
    (l : Link) (c : I2cCtx S) :
    (v.scanMode = some .address → AcksAddresses T acks → k.ProbesAddresses acks →
      (SameReports T way k fuel acks stack opts l c ↔
        (given opts).SkipsInside ∧ ∀ i ∈ expectedAddresses (given opts),
          acks (BitVec.ofInt 8 i) = false ∧ acks (BitVec.ofInt 8 i &&& 0xFE) = true)) ∧
    (v.scanMode = some .command → AcksCommands T (BitVec.ofInt 8 v.address) acks →
      k.ProbesCommands (((BitVec.ofInt 32 v.address).setWidth 16 : Word) >>> 1) acks →
      (SameReports T way k fuel acks stack opts l c ↔
        (given opts).SkipsInside ∧ expectedCommands (given opts) = [])) :=
  ⟨fun hmode hT hk => addressReports_iff hdel hfuel hopts hmode hg hT hk l c,
    fun hmode hT hk => commandReports_iff hdel hfuel hopts hmode hg hT hk l c⟩

end Main

/-- A target that ACKs these bytes, whatever was sent before. -/
def ackingTarget (acks : Byte → Bool) : Target where
  start _ := false
  out _ b := (0, if acks b then .ack else .nack)
  recv _ := (0, 0)
  stopOver _ := 0
  stopShows _ := 0

theorem ackingTarget_addresses (acks : Byte → Bool) : AcksAddresses (ackingTarget acks) acks where
  start _ := rfl
  out _ b := ⟨Nat.zero_le _, by simp only [ackingTarget]; cases acks b <;> decide⟩

theorem ackingTarget_commands {acks : Byte → Bool} {addr : Byte} (haddr : acks addr = true) :
    AcksCommands (ackingTarget acks) addr acks where
  start _ := rfl
  address _ := ⟨Nat.zero_le _, by simp only [ackingTarget, haddr, if_true]⟩
  out _ b := ⟨Nat.zero_le _, by simp only [ackingTarget]; cases acks b <;> decide⟩

/-- `ENXIO` for a byte that is not ACKed. -/
def toldAck (ack : Bool) : IoctlResult := if ack then ⟨0, 0⟩ else ⟨-1, 6⟩

theorem toldAck_tells (ack : Bool) : (toldAck ack).Tells ack := by
  cases ack with
  | true => exact (rfl : (0 : Int) = 0)
  | false => exact (by decide : (-1 : Int) < 0 ∧ ¬ IoctlResult.Interrupted ⟨-1, 6⟩)

/-- A kernel on a bus where these bytes are ACKed.  Its state is the address `I2C_SLAVE` set; an
address of more than seven bits is refused with `EINVAL`. -/
def probingAdapter (acks : Byte → Bool) : Adapter Word where
  ioctl
    | .slave a, s => if a ≤ 0x7F then (⟨0, 0⟩, a) else (⟨-1, 22⟩, s)
    | .smbus _ _ .quick, a => (toldAck (acks (toByte (a <<< 1))), a)
    | .smbus _ b .byte, a => (toldAck (acks (toByte (a <<< 1)) && acks b), a)
    | _, a => (⟨0, 0⟩, a)

theorem probingAdapter_addresses (acks : Byte → Bool) :
    (probingAdapter acks).ProbesAddresses acks where
  slave a ha s := by simp only [probingAdapter, if_pos ha]
  quick a ha s := by
    simp only [probingAdapter, if_pos ha]
    exact toldAck_tells _

theorem probingAdapter_commands {acks : Byte → Bool} {a : Word} (ha : a ≤ 0x7F)
    (hacks : acks (toByte (a <<< 1)) = true) : (probingAdapter acks).ProbesCommands a acks where
  slave s := by simp only [probingAdapter, if_pos ha]
  byte b s := by
    simp only [probingAdapter, if_pos ha, hacks, Bool.true_and]
    exact toldAck_tells _

/-- A scan of the odd address next to a battery, and one of the first commands of the battery. -/
theorem scanDrivers_battery :
    SameReports (ackingTarget (· == 0x16)) (Delivery.all 0) (probingAdapter (· == 0x16)) 1
      (· == 0x16) (fun _ => 0) [.address, .begin "17".toList, .endAt "17".toList]
      ⟨Fx2.init, 0⟩ ⟨false, false, 0⟩ ∧
    ¬ SameReports (ackingTarget (· == 0x16)) (Delivery.all 0) (probingAdapter (· == 0x16)) 1
      (· == 0x16) (fun _ => 0) [.command "16".toList, .begin "0".toList, .endAt "3".toList]
      ⟨Fx2.init, 0⟩ ⟨false, false, 0⟩ := by
  refine ⟨((scanDrivers_iff (fun _ => rfl) (by decide) rfl
    ⟨by decide +kernel, by decide +kernel⟩ _ _).1 rfl (ackingTarget_addresses _)
    (probingAdapter_addresses _)).mpr (by decide +kernel), fun h => ?_⟩
  have hempty := ((scanDrivers_iff (fun _ => rfl) (by decide) rfl
    ⟨by decide +kernel, by decide +kernel⟩ _ _).2 rfl (ackingTarget_commands (by decide +kernel))
    (probingAdapter_commands (by decide +kernel) (by decide +kernel))).mp h
  exact absurd hempty.2 (by decide +kernel)

/-- The address of a smart battery, which is there: the I2CDEV driver does not report it. -/
theorem not_sameReports_battery :
    ¬ SameReports (ackingTarget (· == 0x16)) (Delivery.all 0) (probingAdapter (· == 0x16)) 1
      (· == 0x16) (fun _ => 0) [.address, .begin "16".toList, .endAt "16".toList]
      ⟨Fx2.init, 0⟩ ⟨false, false, 0⟩ := by
  rintro ⟨-, run, c', hrun, hrep⟩
  have hprobes : (scan (i2cdevScanDriver (probingAdapter (· == 0x16)) 1) (fun _ => 0)
      [.address, .begin "16".toList, .endAt "16".toList] ⟨false, false, 0⟩).map (·.1.probes) =
        some [⟨0x16, 0⟩] := by decide +kernel
  rw [hrun, Option.map_some, Option.some.injEq] at hprobes
  have hack := hrep.ack ⟨0x16, 0⟩ (by rw [hprobes]; exact List.mem_singleton_self _)
  exact absurd (hack.mpr (by decide)) (by decide)

end Smbusb
