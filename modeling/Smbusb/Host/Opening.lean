import Smbusb.Host.Library
import Smbusb.Host.Options

/-!
# Opening and closing a device

The opening and closing functions of `smbusb-fx2lp.c` and `smbusb-i2cdev.c`.

`Host` is what the two drivers keep between calls, `device` and `s_ctx`, with the libusb
handles and the file descriptors that were opened and not closed.  A handle or a
descriptor is a number the operating system chooses.

`Outcomes` is what the calls of libusb and of the operating system give while a device
is opened.  `InitDevice` says `INIT_RETRY` after it has uploaded the firmware, and the
device is looked for again; so the outcomes come in rounds, as many as there are.  An
opening that asks for a round that is not there has not returned.
-/

namespace Smbusb

/-- A `libusb_device_handle *`, or a file descriptor. -/
abbrev Handle := Nat

/-! ## States -/

/-- What the drivers keep, and what they hold open. -/
structure Host where
  /-- `device`. -/
  device : Option Handle
  /-- `s_ctx.fd`. -/
  fd : Int
  /-- `s_ctx.pec_enabled`. -/
  pecEnabled : Bool
  /-- `s_ctx.sw_pec`. -/
  swPec : Bool
  /-- The libusb handles that are open. -/
  handles : List Handle
  /-- The file descriptors that are open. -/
  fds : List Handle
deriving DecidableEq, Repr

/-- Before the first call. -/
def Host.init : Host := ⟨none, -1, false, false, [], []⟩

/-- `libusb_open`, when it gives a handle. -/
def Host.opened (s : Host) (h : Handle) : Host :=
  { s with device := some h, handles := h :: s.handles }

/-- `libusb_close(device)`. -/
def Host.libusbClose (s : Host) : Host :=
  match s.device with
  | none => s
  | some h => { s with handles := s.handles.erase h }

/-! ## Outcomes -/

/-- A device in the list of libusb. -/
structure UsbDevice where
  bus : Byte
  addr : Byte
  /-- The handle `libusb_open` gives. -/
  handle : Option Handle
deriving DecidableEq, Repr

/-- What the calls of one round give. -/
structure Round where
  /-- `libusb_open_device_with_vid_pid`. -/
  byId : Word → Word → Option Handle
  /-- `libusb_get_device_list`. -/
  devices : Option (List UsbDevice)
  /-- `libusb_claim_interface`. -/
  claim : Int
  /-- The transfer of `SMBInterfaceID`: its status and `magic`. -/
  interfaceId : Int × BitVec 24
  /-- `CypressUploadIhxFirmware`. -/
  upload : Int
  /-- The transfer that reads the firmware version: its status and `fwver`. -/
  version : Int × BitVec 24

/-- What the calls made while a device is opened give. -/
structure Outcomes where
  /-- `libusb_init`. -/
  init : Int
  rounds : List Round
  /-- `open`. -/
  openFile : Option Handle
  /-- `ioctl(fd, I2C_FUNCS)`, until it is not interrupted: its result, and whether `errno`
  is `EAGAIN` or `EINTR`. -/
  ioctl : List (Int × Bool)
  /-- `funcs & I2C_FUNC_SMBUS_PEC`. -/
  funcPec : Bool

/-! ## FX2LP -/

def errDeviceOpen : Int := -1
def errAlreadyOpen : Int := -5
def errClaimInterface : Int := -10
def errFirmwareDownload : Int := -11
def initRetry : Int := -20

/-- `SMBInterfaceID`. -/
def smbInterfaceID (r : Round) : UInt :=
  if r.interfaceId.1 ≤ 0 ∨ r.interfaceId.2 ≠ 0x4d5355 then 0 else r.interfaceId.2.setWidth 32

/-- `InitDevice`. -/
def initDevice (r : Round) (s : Host) : Int × Host :=
  if r.claim ≠ 0 then (errClaimInterface, s.libusbClose)
  else if smbInterfaceID r ≠ 0x4d5355 then
    if r.upload < 0 then (errFirmwareDownload, s) else (initRetry, s)
  else if r.version.1 = 3 then ((r.version.2.toNat : Int), s)
  else (errFirmwareDownload, s)

/-- Look for a device, and again after the firmware was uploaded.  The two opening
functions do this, each with its way to look for the device and to fail. -/
def openRetry (look : Round → Host → Except (Int × Host) Handle) :
    List Round → Host → Option (Int × Host)
  | [], _ => none
  | r :: rounds, s =>
      match look r s with
      | .error res => some res
      | .ok h =>
          let (status, s) := initDevice r (s.opened h)
          if status = initRetry then openRetry look rounds s else some (status, s)

/-- `FX2LP_SMBOpenDeviceVIDPID` looks for a device. -/
def lookVidPid (vid pid : UInt) (r : Round) (s : Host) : Except (Int × Host) Handle :=
  match r.byId (vid.setWidth 16) (pid.setWidth 16) with
  | none => .error (errDeviceOpen, { s with device := none })
  | some h => .ok h

/-- `FX2LP_SMBOpenDeviceBusAddr` looks for a device.  A `libusb_open` that fails leaves
`device` as it was. -/
def lookBusAddr (bus addr : UInt) (r : Round) (s : Host) : Except (Int × Host) Handle :=
  match r.devices with
  | none => .error (errDeviceOpen, s)
  | some devs =>
      match devs.find? fun dev => dev.bus.setWidth 32 == bus && dev.addr.setWidth 32 == addr with
      | none => .error (-1, s)
      | some dev =>
          match dev.handle with
          | none => .error (-2, s)
          | some h => .ok h

/-- `FX2LP_SMBOpenDeviceVIDPID`. -/
def smbOpenDeviceVidPid (o : Outcomes) (vid pid : UInt) (s : Host) : Option (Int × Host) :=
  if s.device.isSome then some (errAlreadyOpen, s)
  else if o.init < 0 then some (-1, s)
  else openRetry (lookVidPid vid pid) o.rounds s

/-- `FX2LP_SMBOpenDeviceBusAddr`. -/
def smbOpenDeviceBusAddr (o : Outcomes) (bus addr : UInt) (s : Host) : Option (Int × Host) :=
  if s.device.isSome then some (errAlreadyOpen, s)
  else if o.init < 0 then some (-1, s)
  else openRetry (lookBusAddr bus addr) o.rounds s

/-- The routine `FX2LP_Open` calls. -/
def OpenRoutine.call (o : Outcomes) : OpenRoutine → UInt → UInt → Host → Option (Int × Host)
  | vidPid => smbOpenDeviceVidPid o
  | busAddr => smbOpenDeviceBusAddr o

/-- `FX2LP_Open`. -/
def fx2lpOpen (o : Outcomes) (deviceOps : List Char) (s : Host) : Option (Int × Host) :=
  match openCall deviceOps with
  | none => some (-1, s)
  | some (routine, arg0, arg1) => routine.call o arg0 arg1 s

/-- `FX2LP_SMBCloseDevice`. -/
def fx2lpClose (s : Host) : Host :=
  if s.device.isNone then s else { s.libusbClose with device := none }

/-! ## I2CDEV -/

/-- `xioctl`: the first result that is not an interruption. -/
def xioctl : List (Int × Bool) → Option Int
  | [] => none
  | (ret, again) :: results => if ret < 0 ∧ again then xioctl results else some ret

/-- `I2CDEV_SMBOpenDeviceI2c`, without its messages. -/
def smbOpenDeviceI2c (o : Outcomes) (s : Host) : Option (Int × Host) :=
  match o.openFile with
  | none => some (-1, { s with fd := -1 })
  | some fd =>
      let s := { s with fd := (fd : Int), fds := fd :: s.fds }
      (xioctl o.ioctl).map fun sts =>
        if sts ≠ 0 then (sts, s) else (0, { s with swPec := !o.funcPec })

/-- `I2CDEV_SMBCloseDevice`. -/
def i2cdevClose (s : Host) : Host :=
  { s with fd := -1, pecEnabled := true, fds := s.fds.filter fun fd => (fd : Int) ≠ s.fd }

/-! ## Drivers -/

/-- `smbusb_fx2lp_driver` and `smbusb_i2cdev_driver` when they open and close, with any
I/O functions. -/
def openingDrivers (o : Outcomes) (io : DriverId → SmbDriver Host) : DriverId → SmbDriver Host
  | .fx2lp => { io .fx2lp with smbOpen := fx2lpOpen o, smbClose := fx2lpClose }
  | .i2cdev => { io .i2cdev with smbOpen := fun _ => smbOpenDeviceI2c o, smbClose := i2cdevClose }

/-! ## What an opening leaves -/

/-- Nothing is open. -/
structure Host.NotOpen (s : Host) : Prop where
  device : s.device = none
  fd : s.fd = -1
  handles : s.handles = []
  fds : s.fds = []

theorem Host.notOpen_init : Host.init.NotOpen := ⟨rfl, rfl, rfl, rfl⟩

section

variable {r : Round} {rounds : List Round} {s s' : Host} {status : Int}
  {look : Round → Host → Except (Int × Host) Handle}

/-- `InitDevice` never clears `device`, and changes nothing when it asks for a retry. -/
theorem initDevice_spec (r : Round) (s : Host) :
    (initDevice r s).2.device = s.device ∧
      ((initDevice r s).1 = initRetry → (initDevice r s).2 = s) := by
  have hclose : s.libusbClose.device = s.device := by
    unfold Host.libusbClose
    split <;> rfl
  unfold initDevice
  split
  · exact ⟨hclose, fun h => absurd (show errClaimInterface = initRetry from h) (by decide)⟩
  · split
    · split <;> exact ⟨rfl, fun _ => rfl⟩
    · split <;> exact ⟨rfl, fun _ => rfl⟩

/-- Once a handle is open, or the first round gives one, something stays open: no round
closes the handle of another, and a handle that is closed stays in `device`. -/
theorem openRetry_stays (hlook : ∀ r s res, look r s = .error res → res.2.handles = s.handles)
    (hs : s.handles ≠ [] ∨ ∃ r handle, rounds.head? = some r ∧ look r s = .ok handle)
    (h : openRetry look rounds s = some (status, s')) : ¬ s'.NotOpen := by
  induction rounds generalizing s with
  | nil => simp [openRetry] at h
  | cons r rounds ih =>
      rw [openRetry] at h
      cases hr : look r s with
      | error res =>
          simp only [hr, Option.some.injEq] at h
          rcases hs with hs | ⟨r', handle, hhead, hok⟩
          · intro hnot
            exact hs ((hlook r s res hr).symm.trans (by rw [h]; exact hnot.handles))
          · obtain rfl : r = r' := by simpa using hhead
            rw [hr] at hok
            cases hok
      | ok handle =>
          obtain ⟨hdev, hretry⟩ := initDevice_spec r (s.opened handle)
          simp only [hr] at h
          generalize initDevice r (s.opened handle) = res at h hdev hretry
          obtain ⟨st, t⟩ := res
          split at h
          · next heq =>
            refine ih (.inl ?_) h
            rw [show t = s.opened handle from hretry heq]
            exact List.cons_ne_nil _ _
          · obtain ⟨-, rfl⟩ := Prod.mk.inj (Option.some.inj h)
            intro hnot
            have hsome : t.device = some handle := hdev
            rw [hnot.device] at hsome
            cases hsome

theorem lookVidPid_error {vid pid : UInt} {res : Int × Host}
    (h : lookVidPid vid pid r s = .error res) :
    res.2.handles = s.handles ∧ (s.device = none → res.2 = s) := by
  unfold lookVidPid at h
  split at h
  · obtain rfl : (errDeviceOpen, { s with device := none }) = res := by simpa using h
    refine ⟨rfl, fun hs => ?_⟩
    rw [← hs]
  · simp at h

theorem lookBusAddr_error {bus addr : UInt} {res : Int × Host}
    (h : lookBusAddr bus addr r s = .error res) : res.2 = s := by
  unfold lookBusAddr at h
  split at h
  · rw [← Except.error.inj h]
  · split at h
    · rw [← Except.error.inj h]
    · split at h
      · rw [← Except.error.inj h]
      · simp at h

end

end Smbusb
