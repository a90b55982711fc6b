import Smbusb.Host.Opening
import Smbusb.Logic.Runs

/-!
# The life of the library

*Runs.*  A run is a list of calls of the library, each with what the drivers do at it.
A `Session` keeps beside the library what its caller knows: whether the last
`SMBOpenDevice` that reached a driver succeeded, and no `SMBCloseDevice` came after it.
`Lifecycle` says that the library agrees, and that it does nothing while it is not open.
A run has it throughout exactly when no `SMBCloseDevice` of the run finds a driver, for
`SMBCloseDevice` leaves `s_drv` where it is (`lifecycle_iff`).

*Openings that fail.*  A failed `SMBOpenDevice` leaves no trace exactly when it fails
before it has a handle (`noTrace_iff`).
-/

namespace Smbusb

open Logic

/-! ## Runs -/

/-- A call of the library. -/
inductive LibraryCall where
  | openDevice (uri : List Char)
  | closeDevice
  | io (call : IoCall)

/-- A call, and the drivers it meets. -/
structure LibraryStep (W : Type) where
  drivers : DriverId → SmbDriver W
  call : LibraryCall

/-- The library, and whether its caller may take it for open. -/
structure Session (W : Type) where
  library : Library W
  opened : Bool

section

variable {W : Type} (build : Build)

/-- The session after a call.  Nothing comes after a call that never returns. -/
def Session.next (s : Session W) (c : LibraryStep W) : Session W :=
  match c.call with
  | .openDevice uri =>
      match s.library.openDevice c.drivers build uri with
      | none => s
      | some (status, l) =>
          ⟨l, if l.reached = s.library.reached then s.opened else decide (0 ≤ status)⟩
  | .closeDevice => ⟨s.library.closeDevice c.drivers, false⟩
  | .io call => ⟨(call.run c.drivers s.library).2, s.opened⟩

/-- What a library that is not open does: its I/O functions give -1 or 0 and reach no
driver, to close it does nothing, and to open it reaches the driver of the URI. -/
structure Inert (l : Library W) : Prop where
  io : ∀ (drivers : DriverId → SmbDriver W) (call : IoCall),
    call.run drivers l = (call.noDriver, l)
  close : ∀ drivers : DriverId → SmbDriver W, l.closeDevice drivers = l
  opens : ∀ (drivers : DriverId → SmbDriver W) (uri : List Char) (drv : DriverId)
    (deviceOps : List Char), Library.select build uri = some (drv, deviceOps) →
    (l.openDevice drivers build uri).map (fun r => (r.1, r.2.world, r.2.reached)) =
      ((drivers drv).smbOpen deviceOps l.world).map fun r => (r.1, r.2, l.reached + 1)

/-- The library is open exactly when its caller may take it for open, and inert
otherwise. -/
structure Lifecycle (s : Session W) : Prop where
  isOpen : s.library.sDrv ≠ none ↔ s.opened = true
  closed : s.opened = false → Inert build s.library

theorem inert_of_none {l : Library W} (h : l.sDrv = none) : Inert build l where
  io drivers call := call.run_none drivers h
  close drivers := by simp only [Library.closeDevice, h]
  opens drivers uri drv deviceOps hsel := by
    simp only [Library.openDevice, h, Option.isSome_none, Bool.false_eq_true, if_false, hsel,
      Option.map_map]
    rfl

theorem lifecycle_of_isOpen {s : Session W} (h : s.library.sDrv ≠ none ↔ s.opened = true) :
    Lifecycle build s := by
  refine ⟨h, fun hclosed => inert_of_none build ?_⟩
  by_contra hne
  rw [h.mp hne] at hclosed
  cases hclosed

/-- The library is open as it should be after an open. -/
theorem openDevice_isOpen {s : Session W} {drivers : DriverId → SmbDriver W} {uri : List Char}
    {status : Int} {l : Library W} (hs : s.library.sDrv ≠ none ↔ s.opened = true)
    (h : s.library.openDevice drivers build uri = some (status, l)) :
    l.sDrv ≠ none ↔
      (if l.reached = s.library.reached then s.opened else decide (0 ≤ status)) = true := by
  unfold Library.openDevice at h
  split at h
  · obtain ⟨-, rfl⟩ := Prod.mk.inj (Option.some.inj h)
    rw [if_pos rfl]
    exact hs
  · split at h
    · obtain ⟨-, rfl⟩ := Prod.mk.inj (Option.some.inj h)
      rw [if_pos rfl]
      exact hs
    · next drv deviceOps _ =>
      obtain ⟨⟨st, world⟩, -, heq⟩ := Option.map_eq_some_iff.mp h
      obtain ⟨rfl, rfl⟩ := Prod.mk.inj heq
      rw [if_neg (Nat.succ_ne_self _)]
      by_cases hneg : st < 0
      · simp [hneg]
      · simp [hneg, Int.not_lt.mp hneg]

/-- A `SMBCloseDevice` that finds no driver. -/
def ClosesNothing (s : Session W) (c : LibraryStep W) : Prop :=
  c.call = .closeDevice → s.library.sDrv = none

/-- One call. -/
theorem lifecycle_step {s : Session W} (c : LibraryStep W) (hs : Lifecycle build s) :
    Lifecycle build (s.next build c) ↔ ClosesNothing s c := by
  obtain ⟨drivers, call⟩ := c
  cases call with
  | openDevice uri =>
      refine iff_of_true (lifecycle_of_isOpen build ?_) (fun h => LibraryCall.noConfusion h)
      simp only [Session.next]
      cases hopen : s.library.openDevice drivers build uri with
      | none => exact hs.isOpen
      | some r => exact openDevice_isOpen build hs.isOpen hopen
  | closeDevice =>
      have hdrv : (s.library.closeDevice drivers).sDrv = s.library.sDrv := by
        unfold Library.closeDevice
        split <;> rfl
      constructor
      · intro h _
        by_contra hne
        rw [← hdrv] at hne
        exact Bool.noConfusion (h.isOpen.mp hne)
      · intro h
        refine lifecycle_of_isOpen build ?_
        simp only [Session.next, hdrv, h rfl, ne_eq, not_true, Bool.false_eq_true]
  | io call =>
      refine iff_of_true (lifecycle_of_isOpen build ?_) (fun h => LibraryCall.noConfusion h)
      change (call.run drivers s.library).2.sDrv ≠ none ↔ s.opened = true
      rw [call.run_sDrv]
      exact hs.isOpen

/-- Before the first call. -/
def Session.init (world : W) : Session W := ⟨⟨none, world, 0⟩, false⟩

/-- In a run of calls the library is open when its caller may take it for open, and inert
otherwise, exactly when no `SMBCloseDevice` finds a driver. -/
theorem lifecycle_iff (world : W) (run : List (LibraryStep W)) :
    EveryStep (Session.next build) (fun s c => Lifecycle build (s.next build c))
        (.init world) run ↔
      EveryStep (Session.next build) ClosesNothing (.init world) run :=
  everyStep_iff_of_invariant (Lifecycle build) (fun _ c hs => lifecycle_step build c hs)
    (fun _ _ _ h => h) (lifecycle_of_isOpen build (by simp [Session.init]))

end

/-- I/O functions that fail. -/
def failingIo (W : Type) : SmbDriver W where
  smbOpen _ w := some (-1, w)
  smbClose w := w
  readByte _ _ w := (-1, w)
  sendByte _ _ w := (-1, w)
  writeByte _ _ _ w := (-1, w)
  readWord _ _ w := (-1, w)
  writeWord _ _ _ w := (-1, w)
  readBlock _ _ data w := ((-1, data), w)
  writeBlock _ _ _ _ w := (-1, w)
  getLastReadPecFail w := (0, w)
  enablePec _ w := ((), w)
  write _ _ _ _ w := (-1, w)
  read _ data _ w := ((-1, data), w)
  transfer msgs w := ((-1, msgs), w)
  getArbPec w := (0, w)
  testAddressAck _ w := (-1, w)
  testCommandAck _ _ w := (-1, w)
  testCommandWrite _ _ w := (-1, w)
  setDebugLogFunc _ w := ((), w)

/-- An I2C device that opens. -/
def openingI2c : Outcomes := ⟨0, [], some 3, [(0, false)], true⟩

/-- After an open and a close the library has its driver still. -/
theorem not_lifecycle_closed :
    ¬ EveryStep (Session.next ⟨true, true⟩)
      (fun s c => Lifecycle ⟨true, true⟩ (s.next ⟨true, true⟩ c)) (.init Host.init)
      [⟨openingDrivers openingI2c fun _ => failingIo Host, .openDevice "i2c:///dev/i2c-7".toList⟩,
        ⟨openingDrivers openingI2c fun _ => failingIo Host, .closeDevice⟩] := by
  rintro ⟨-, h, -⟩
  exact absurd (h.isOpen.mp (by decide +kernel)) (by decide +kernel)

/-! ## Openings that fail -/

/-- What an open comes to: the status, the driver and the drivers' state. -/
def Library.opening {W : Type} (drivers : DriverId → SmbDriver W) (build : Build)
    (uri : List Char) (l : Library W) : Option (Int × Option DriverId × W) :=
  (l.openDevice drivers build uri).map fun (status, l) => (status, l.sDrv, l.world)

/-- From `l` to `l'` an open left no trace: nothing is open, and every later open comes to
what it would have come to. -/
structure NoTrace (build : Build) (l l' : Library Host) : Prop where
  sDrv : l'.sDrv = none
  notOpen : l'.world.NotOpen
  later : ∀ (o : Outcomes) (io : DriverId → SmbDriver Host) (uri : List Char),
    l'.opening (openingDrivers o io) build uri = l.opening (openingDrivers o io) build uri

/-- A routine of FX2LP gets a handle: `libusb_init` succeeds, and the first time the device
is looked for, it is found and opened. -/
def OpenRoutine.Acquires (o : Outcomes) (arg0 arg1 : UInt) : OpenRoutine → Prop
  | vidPid => 0 ≤ o.init ∧
      ∃ r ∈ o.rounds.head?, (r.byId (arg0.setWidth 16) (arg1.setWidth 16)).isSome
  | busAddr => 0 ≤ o.init ∧ ∃ r ∈ o.rounds.head?, ∃ devs ∈ r.devices, ∃ dev ∈ devs.find? fun dev =>
      dev.bus.setWidth 32 == arg0 && dev.addr.setWidth 32 == arg1, dev.handle.isSome

/-- An open gets a handle. -/
def Acquires (build : Build) (o : Outcomes) (uri : List Char) : Prop :=
  match Library.select build uri with
  | none => False
  | some (.fx2lp, deviceOps) =>
      ∃ call ∈ openCall deviceOps, call.1.Acquires o call.2.1 call.2.2
  | some (.i2cdev, _) => o.openFile.isSome

section

variable {o : Outcomes} {s s' : Host} {status : Int}

theorem lookVidPid_ok_iff {vid pid : UInt} {r : Round} :
    (∃ h, lookVidPid vid pid r s = .ok h) ↔
      (r.byId (vid.setWidth 16) (pid.setWidth 16)).isSome := by
  unfold lookVidPid
  cases r.byId (vid.setWidth 16) (pid.setWidth 16) <;> simp

theorem lookBusAddr_ok_iff {bus addr : UInt} {r : Round} :
    (∃ h, lookBusAddr bus addr r s = .ok h) ↔
      ∃ devs ∈ r.devices, ∃ dev ∈ devs.find? fun dev =>
        dev.bus.setWidth 32 == bus && dev.addr.setWidth 32 == addr, dev.handle.isSome := by
  unfold lookBusAddr
  cases r.devices with
  | none => simp
  | some devs =>
      simp only [Option.mem_def, Option.some.injEq, exists_eq_left']
      cases devs.find? fun dev => dev.bus.setWidth 32 == bus && dev.addr.setWidth 32 == addr with
      | none => simp
      | some dev =>
          simp only [Option.some.injEq, exists_eq_left']
          cases dev.handle <;> simp

/-- A first round that does not find the device is the whole opening. -/
theorem openRetry_fails {look : Round → Host → Except (Int × Host) Handle} {rounds : List Round}
    (hlook : ∀ r res, look r s = .error res → res.2 = s)
    (hnone : ¬ ∃ r handle, rounds.head? = some r ∧ look r s = .ok handle)
    (h : openRetry look rounds s = some (status, s')) : s' = s := by
  cases rounds with
  | nil => simp [openRetry] at h
  | cons r rounds =>
      rw [openRetry] at h
      cases hr : look r s with
      | ok handle => exact absurd ⟨r, handle, rfl, hr⟩ hnone
      | error res =>
          simp only [hr, Option.some.injEq] at h
          rw [← hlook r res hr, h]

/-- A routine of FX2LP that did not get a handle changes nothing; one that did leaves
something open. -/
theorem routine_notOpen_iff (routine : OpenRoutine) {arg0 arg1 : UInt} (hs : s.NotOpen)
    (h : routine.call o arg0 arg1 s = some (status, s')) :
    (¬ routine.Acquires o arg0 arg1 → s' = s) ∧ (routine.Acquires o arg0 arg1 → ¬ s'.NotOpen) := by
  cases routine with
  | vidPid =>
      simp only [OpenRoutine.call, smbOpenDeviceVidPid, hs.device, Option.isSome_none,
        Bool.false_eq_true, if_false] at h
      have hacq : OpenRoutine.vidPid.Acquires o arg0 arg1 ↔ 0 ≤ o.init ∧
          ∃ r handle, o.rounds.head? = some r ∧ lookVidPid arg0 arg1 r s = .ok handle := by
        exact and_congr_right fun _ => exists_congr fun r =>
          (and_congr_right fun _ => lookVidPid_ok_iff.symm).trans exists_and_left.symm
      rw [hacq]
      split at h
      · next hinit =>
        obtain ⟨-, rfl⟩ := Prod.mk.inj (Option.some.inj h)
        exact ⟨fun _ => rfl, fun hget => absurd hget.1 (Int.not_le.mpr hinit)⟩
      · next hinit =>
        refine ⟨fun hnot => openRetry_fails (fun r res hr => (lookVidPid_error hr).2 hs.device)
          (fun hget => hnot ⟨Int.not_lt.mp hinit, hget⟩) h, fun hget => ?_⟩
        exact openRetry_stays (fun r s res hr => (lookVidPid_error hr).1) (.inr hget.2) h
  | busAddr =>
      simp only [OpenRoutine.call, smbOpenDeviceBusAddr, hs.device, Option.isSome_none,
        Bool.false_eq_true, if_false] at h
      have hacq : OpenRoutine.busAddr.Acquires o arg0 arg1 ↔ 0 ≤ o.init ∧
          ∃ r handle, o.rounds.head? = some r ∧ lookBusAddr arg0 arg1 r s = .ok handle := by
        exact and_congr_right fun _ => exists_congr fun r =>
          (and_congr_right fun _ => lookBusAddr_ok_iff.symm).trans exists_and_left.symm
      rw [hacq]
      split at h
      · next hinit =>
        obtain ⟨-, rfl⟩ := Prod.mk.inj (Option.some.inj h)
        exact ⟨fun _ => rfl, fun hget => absurd hget.1 (Int.not_le.mpr hinit)⟩
      · next hinit =>
        refine ⟨fun hnot => openRetry_fails (fun r res hr => lookBusAddr_error hr)
          (fun hget => hnot ⟨Int.not_lt.mp hinit, hget⟩) h, fun hget => ?_⟩
        exact openRetry_stays (fun r s res hr => congrArg Host.handles (lookBusAddr_error hr))
          (.inr hget.2) h

/-- The same of the I2C device, when it fails. -/
theorem i2c_notOpen_iff (hs : s.NotOpen) (h : smbOpenDeviceI2c o s = some (status, s')) :
    (¬ o.openFile.isSome → s' = s) ∧ (o.openFile.isSome → ¬ s'.NotOpen) := by
  unfold smbOpenDeviceI2c at h
  split at h
  · next hfile =>
    obtain ⟨-, rfl⟩ := Prod.mk.inj (Option.some.inj h)
    rw [hfile, ← hs.fd]
    exact ⟨fun _ => rfl, fun hget => Bool.noConfusion hget⟩
  · next fd hfile =>
    obtain ⟨sts, -, heq⟩ := Option.map_eq_some_iff.mp h
    rw [hfile]
    refine ⟨fun hnot => absurd rfl hnot, fun _ hnot => ?_⟩
    have hfds := hnot.fds
    split at heq
    · rw [← (Prod.mk.inj heq).2] at hfds
      cases hfds
    · rw [← (Prod.mk.inj heq).2] at hfds
      cases hfds

end

/-- A `SMBOpenDevice` that fails leaves no trace exactly when it did not get a handle. -/
theorem noTrace_iff (build : Build) (o : Outcomes) (io : DriverId → SmbDriver Host)
    (uri : List Char) {l l' : Library Host} {status : Int} (hdrv : l.sDrv = none)
    (hworld : l.world.NotOpen)
    (h : l.openDevice (openingDrivers o io) build uri = some (status, l')) (hfail : status < 0) :
    NoTrace build l l' ↔ ¬ Acquires build o uri := by
  obtain ⟨hsDrv, hsame, hheld⟩ : l'.sDrv = none ∧ (¬ Acquires build o uri → l'.world = l.world) ∧
      (Acquires build o uri → ¬ l'.world.NotOpen) := by
    simp only [Library.openDevice, hdrv, Option.isSome_none, Bool.false_eq_true, if_false] at h
    unfold Acquires
    cases hsel : Library.select build uri with
    | none =>
        simp only [hsel] at h
        obtain ⟨-, rfl⟩ := Prod.mk.inj (Option.some.inj h)
        exact ⟨hdrv, fun _ => rfl, False.elim⟩
    | some sel =>
        obtain ⟨drv, deviceOps⟩ := sel
        simp only [hsel] at h
        obtain ⟨⟨st, world⟩, hopen, heq⟩ := Option.map_eq_some_iff.mp h
        obtain ⟨rfl, rfl⟩ := Prod.mk.inj heq
        refine ⟨if_pos hfail, ?_⟩
        cases drv with
        | i2cdev => exact i2c_notOpen_iff hworld hopen
        | fx2lp =>
            have hopen : fx2lpOpen o deviceOps l.world = some (st, world) := hopen
            unfold fx2lpOpen at hopen
            cases hcall : openCall deviceOps with
            | none =>
                simp only [hcall] at hopen
                obtain ⟨-, rfl⟩ := Prod.mk.inj (Option.some.inj hopen)
                exact ⟨fun _ => rfl, fun hget => by simp [hcall] at hget⟩
            | some call =>
                simp only [hcall] at hopen
                simp only [hcall, Option.mem_def, Option.some.injEq, exists_eq_left']
                exact routine_notOpen_iff call.1 hworld hopen
  constructor
  · exact fun hno hget => hheld hget hno.notOpen
  · intro hnot
    refine ⟨hsDrv, by rw [hsame hnot]; exact hworld, fun o io uri => ?_⟩
    simp only [Library.opening, Library.openDevice, hsDrv, hdrv, hsame hnot]
    simp only [Option.isSome_none, Bool.false_eq_true, if_false]
    cases Library.select build uri with
    | none => simp [hsDrv, hdrv, hsame hnot]
    | some sel => simp only [Option.map_map]; rfl

/-- The URI of the README. -/
def readmeUri : List Char := "fx2lp://vid=0x04b4,pid=0x8613".toList

/-- No such device is there. -/
def noDevice : Outcomes :=
  ⟨0, [⟨fun _ _ => none, none, 0, (3, 0x4d5355), 1, (3, 0x010001)⟩], none, [], true⟩

theorem noTrace_noDevice :
    NoTrace ⟨true, true⟩ ⟨none, Host.init, 0⟩ ⟨none, Host.init, 1⟩ :=
  (noTrace_iff ⟨true, true⟩ noDevice (fun _ => failingIo Host) readmeUri rfl Host.notOpen_init
    (by decide +kernel) (show (-1 : Int) < 0 by decide)).mpr (by
      have hcall : openCall (readmeUri.drop 8) = some (.vidPid, 0, 0) := by decide +kernel
      have hsel : Library.select ⟨true, true⟩ readmeUri = some (.fx2lp, readmeUri.drop 8) := by
        decide +kernel
      simp [Acquires, hsel, hcall, OpenRoutine.Acquires, noDevice])

/-- Another program has claimed the interface. -/
def claimedDevice : Outcomes :=
  ⟨0, [⟨fun _ _ => some 7, none, -6, (3, 0x4d5355), 1, (3, 0x010001)⟩], none, [], true⟩

/-- The handle that was closed stays in `device`, and no later open gets past it. -/
theorem not_noTrace_claimed :
    ∃ l', Library.openDevice (openingDrivers claimedDevice fun _ => failingIo Host) ⟨true, true⟩
        readmeUri ⟨none, Host.init, 0⟩ = some (errClaimInterface, l') ∧
      ¬ NoTrace ⟨true, true⟩ ⟨none, Host.init, 0⟩ l' := by
  refine ⟨⟨none, { Host.init with device := some 7 }, 1⟩, by decide +kernel, fun h => ?_⟩
  have hdev : some 7 = none := h.notOpen.device
  cases hdev

end Smbusb
