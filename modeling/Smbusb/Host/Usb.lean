import Smbusb.Firmware.Requests

/-!
# Control transfers

The host reaches the firmware by control transfers only.  A `Device` is what
`libusb_control_transfer` does on a device with states `S`: it gives the status,
and for an IN transfer the bytes received.  The host functions are written over
any device.

`usb T fate` is the device this repository is about: the firmware on a bus with
target `T`.  What happens to each transfer of a call is a `Delivery`, by the number
of the transfer in the call.  Before it reaches the firmware some ticks pass.  It
may get lost on the way there, and its status may get lost on the way back, when
the firmware has handled it already.

What is taken from outside the repository:

* fx2lib stalls a request whose handler returns false, and libusb reports a stall
  as `LIBUSB_ERROR_PIPE`;
* the data stage of an OUT transfer is in `EP0BUF` from index 0 on, and what was in
  the buffer behind it stays;
* an IN transfer ends after `EP0BCL` bytes or at the length the host asked for.
-/

namespace Smbusb

open Logic

/-- What control transfers do on a device with states `S`. -/
structure Device (S : Type) where
  /-- An OUT transfer: request, setup packet and data.  Gives the status. -/
  out : Byte → Setup → List Byte → S → Int × S
  /-- An IN transfer: request, setup packet and length.  Gives the status and the bytes. -/
  inp : Byte → Setup → Nat → S → (Int × List Byte) × S

/-! ## The firmware as a device -/

/-- `LIBUSB_ERROR_PIPE`. -/
def libusbErrorPipe : Int := -9

/-- What becomes of a transfer.  An error `e` is the negative status `-(e+1)`. -/
inductive Fate where
  /-- It is handled and its status reaches the host. -/
  | delivered
  /-- It never reaches the firmware. -/
  | lost (e : Nat)
  /-- It is handled, but the host sees an error. -/
  | unacked (e : Nat)
deriving DecidableEq, Repr

/-- A transfer on its way: the ticks before it arrives, and its fate. -/
structure Delivery where
  gap : Nat
  fate : Fate

/-- Whether a transfer reaches the firmware. -/
def Fate.arrives : Fate → Bool
  | .lost _ => false
  | _ => true

/-- The ticks from the first transfer of a call to the transfer `k`. -/
def elapsed (way : Nat → Delivery) (k : Nat) : Nat :=
  ((List.range k).map fun j => (way (j + 1)).gap).sum

/-- The transfer `k` of a call reaches the firmware: the ones before it were
delivered, so the call went on. -/
def Arrives (way : Nat → Delivery) (k : Nat) : Prop :=
  (∀ j < k, (way j).fate = .delivered) ∧ (way k).fate.arrives

/-- Of `n` transfers of a call, those that reach the firmware find a tick counter,
reset when the first was handled, that has not passed `BLOCK_SEQ_TIMEOUT`. -/
def InTime (way : Nat → Delivery) (n : Nat) : Prop :=
  ∀ k < n, Arrives way k → BitVec.ofNat 16 (elapsed way k) ≤ blockSeqTimeout

theorem elapsed_succ (way : Nat → Delivery) (k : Nat) :
    elapsed way (k + 1) = elapsed way k + (way (k + 1)).gap := by
  simp [elapsed, List.range_succ]

/-- Every transfer is delivered, after so many ticks. -/
def Delivery.all (gap : Nat) : Nat → Delivery := fun _ => ⟨gap, .delivered⟩

theorem Delivery.all_delivered (gap k : Nat) : (Delivery.all gap k).fate = .delivered := rfl

theorem inTime_all_zero (n : Nat) : InTime (Delivery.all 0) n := by
  intro k _ _
  have h : elapsed (Delivery.all 0) k = 0 := by simp [elapsed, Delivery.all]
  rw [h]
  decide

/-- The firmware, and the number of transfers the call in progress has made. -/
structure Link where
  fx2 : Fx2
  sent : Nat

/-- A `BYTE` counter counts at most 255 turns before it wraps. -/
def loopFuel : Nat := 256

/-- Handle a vendor request.  A handler that hangs is a request without a status. -/
def serve (T : Target) (cmd : Byte) (setup : Setup) (s : Fx2) : Bool × Fx2 :=
  match handleVendorcommand T loopFuel cmd setup s with
  | .ok b s' => (b, s')
  | .error _ s' => (false, s')

/-- The firmware with the data stage of an OUT request in `EP0BUF`. -/
def Fx2.load (s : Fx2) (data : List Byte) : Fx2 := { s with ep0buf := s.ep0buf.write 0 data }

/-- The firmware on a bus, behind USB. -/
def usb (T : Target) (way : Nat → Delivery) : Device Link where
  out cmd setup data l :=
    let s := l.fx2.tick (way l.sent).gap
    match (way l.sent).fate with
    | .lost e => (Int.negSucc e, ⟨s, l.sent + 1⟩)
    | .delivered =>
        let r := serve T cmd setup (s.load data)
        (if r.1 then data.length else libusbErrorPipe, ⟨r.2, l.sent + 1⟩)
    | .unacked e =>
        let r := serve T cmd setup (s.load data)
        (Int.negSucc e, ⟨r.2, l.sent + 1⟩)
  inp cmd setup length l :=
    let s := l.fx2.tick (way l.sent).gap
    match (way l.sent).fate with
    | .lost e => ((Int.negSucc e, []), ⟨s, l.sent + 1⟩)
    | .delivered =>
        let r := serve T cmd setup s
        (if r.1 then ((r.2.reply length).length, r.2.reply length) else (libusbErrorPipe, []),
          ⟨r.2, l.sent + 1⟩)
    | .unacked e =>
        let r := serve T cmd setup s
        ((Int.negSucc e, []), ⟨r.2, l.sent + 1⟩)

/-! ## OUT transfers -/

section Out

variable {T : Target} {way : Nat → Delivery} {cmd : Byte} {setup : Setup} {data : List Byte}
  {l : Link}

theorem serve_of_run (cmd : Byte) {s s' : Fx2} {b : Bool}
    (h : handleVendorcommand T loopFuel cmd setup s = .ok b s') :
    serve T cmd setup s = (b, s') := by
  simp only [serve, h]

variable (T way cmd setup data) in
/-- A transfer that gets lost gives an error, and the firmware does not see it. -/
theorem usb_out_lost (h : (way l.sent).fate.arrives = false) :
    ∃ status < 0, (usb T way).out cmd setup data l =
      (status, ⟨l.fx2.tick (way l.sent).gap, l.sent + 1⟩) := by
  cases hf : (way l.sent).fate with
  | delivered => simp [Fate.arrives, hf] at h
  | unacked e => simp [Fate.arrives, hf] at h
  | lost e => exact ⟨Int.negSucc e, Int.negSucc_lt_zero e, by simp [usb, hf]⟩

/-- The host sees the length of its data exactly when the handler returned true and
the status came back. -/
theorem usb_out_served {b : Bool} {s' : Fx2} (h : (way l.sent).fate.arrives = true)
    (hs : serve T cmd setup ((l.fx2.tick (way l.sent).gap).load data) = (b, s')) :
    ∃ status, (usb T way).out cmd setup data l = (status, ⟨s', l.sent + 1⟩) ∧
      (status = data.length ↔ b = true ∧ (way l.sent).fate = .delivered) := by
  cases hf : (way l.sent).fate with
  | lost e => simp [Fate.arrives, hf] at h
  | unacked e =>
      refine ⟨Int.negSucc e, by simp [usb, hf, hs], ?_⟩
      have : Int.negSucc e ≠ data.length := by simp
      simp [this]
  | delivered =>
      refine ⟨if b then data.length else libusbErrorPipe, by simp [usb, hf, hs], ?_⟩
      cases b with
      | true => simp
      | false =>
          have : libusbErrorPipe ≠ data.length := by simp only [libusbErrorPipe]; omega
          simp [this]

end Out

/-! ## IN transfers -/

section In

variable {T : Target} {way : Nat → Delivery} {cmd : Byte} {setup : Setup} {length : Nat}
  {l : Link}

variable (T way cmd setup length) in
theorem usb_inp_lost (h : (way l.sent).fate.arrives = false) :
    ∃ status < 0, (usb T way).inp cmd setup length l =
      ((status, []), ⟨l.fx2.tick (way l.sent).gap, l.sent + 1⟩) := by
  cases hf : (way l.sent).fate with
  | delivered => simp [Fate.arrives, hf] at h
  | unacked e => simp [Fate.arrives, hf] at h
  | lost e => exact ⟨Int.negSucc e, Int.negSucc_lt_zero e, by simp [usb, hf]⟩

variable (way length) in
/-- The host gets the reply exactly when the handler returned true and the status came
back. -/
theorem usb_inp_served {b : Bool} {s' : Fx2} (h : (way l.sent).fate.arrives = true)
    (hs : serve T cmd setup (l.fx2.tick (way l.sent).gap) = (b, s')) :
    ∃ status < 0, (usb T way).inp cmd setup length l =
      (if b = true ∧ (way l.sent).fate = .delivered then
        (((s'.reply length).length : Int), s'.reply length) else (status, []),
        ⟨s', l.sent + 1⟩) := by
  cases hf : (way l.sent).fate with
  | lost e => simp [Fate.arrives, hf] at h
  | unacked e =>
      exact ⟨Int.negSucc e, Int.negSucc_lt_zero e, by simp [usb, hf, hs]⟩
  | delivered =>
      refine ⟨libusbErrorPipe, by decide, ?_⟩
      cases b <;> simp [usb, hf, hs]

end In

end Smbusb
