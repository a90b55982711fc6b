import Smbusb.Firmware.Bounds
import Smbusb.Logic.Runs
import Smbusb.Host.WriteBlock

/-!
# The arrays of the firmware, over runs of the host

A run is a list of block reads, block writes, arbitrary reads and arbitrary writes, in
any order, each with what happens to its transfers.  In every run whose `WRITE_BLOCK`
requests have counts that fit, no access of the firmware is past the end of `temp` or
`EP0BUF` (`inBounds_run`).  The target is any target.

*Two devices.*  The host functions know a device by its transfers only.  So what two
devices have in common, transfer by transfer, they have in common under every host
function (`Device.Alike`).  The device that notes the requests that arrive is compared
with the device itself that way.

A block write whose length is more than `temp` holds is an access past the end
(`oob_of_long`).
-/

namespace Smbusb

open Logic Prog Fw Fx2lp

/-! ## Two devices -/

section

variable {S S' : Type}

/-- The same result in related states. -/
def SameResult {A : Type} (R : S → S' → Prop) (r : A × S) (r' : A × S') : Prop :=
  ∃ a t t', r = (a, t) ∧ r' = (a, t') ∧ R t t'

theorem SameResult.intro {A : Type} {R : S → S' → Prop} {a : A} {s : S} {s' : S'} (h : R s s') :
    SameResult R (a, s) (a, s') := ⟨a, s, s', rfl, rfl, h⟩

/-- Two devices that do alike, for the requests in `ok`: from related states they give
the host the same, and end in related states. -/
structure Device.Alike (ok : Byte → Setup → Prop) (R : S → S' → Prop) (d : Device S)
    (d' : Device S') : Prop where
  out : ∀ {cmd setup s s'} data, ok cmd setup → R s s' →
    SameResult R (d.out cmd setup data s) (d'.out cmd setup data s')
  inp : ∀ {cmd setup s s'} length, ok cmd setup → R s s' →
    SameResult R (d.inp cmd setup length s) (d'.inp cmd setup length s')

variable {R : S → S' → Prop} {d : Device S} {d' : Device S'} {s : S} {s' : S'}

theorem issued_readBlock (setup : Setup) : Issued smbReadBlock setup := .inl rfl

theorem issued_writeBlock (setup : Setup) : Issued smbWriteBlock setup := .inr (.inl rfl)

theorem readBlockRest_alike (h : Device.Alike Issued R d d') (setup : Setup)
    (total fuel rcvd : Nat) (data : Mem Byte) (hs : R s s') :
    SameResult R (readBlockRest d setup total fuel rcvd data s)
      (readBlockRest d' setup total fuel rcvd data s') := by
  induction fuel generalizing rcvd data s s' with
  | zero => exact .intro hs
  | succ fuel ih =>
      obtain ⟨⟨status, tmp⟩, t, t', h1, h2, ht⟩ := h.inp 64 (issued_readBlock setup) hs
      simp only [readBlockRest, h1, h2]
      split
      · split
        · exact .intro ht
        · exact ih _ _ ht
      · exact .intro hs

theorem readBlock_alike (h : Device.Alike Issued R d d') (fuel : Nat) (address : UInt)
    (command : Byte) (data : Mem Byte) (hs : R s s') :
    SameResult R (Fx2lp.readBlock d fuel address command data s)
      (Fx2lp.readBlock d' fuel address command data s') := by
  obtain ⟨⟨status, tmp⟩, t, t', h1, h2, ht⟩ :=
    h.inp 64 (issued_readBlock (setupOf address command)) hs
  simp only [Fx2lp.readBlock, h1, h2]
  split
  · exact .intro ht
  · exact readBlockRest_alike h _ _ _ _ _ ht

theorem writeBlockWhole_alike (h : Device.Alike Issued R d d') (setup : Setup) (tmp : List Byte)
    (left i : Nat) (hs : R s s') :
    SameResult R (writeBlockWhole d setup tmp left i s)
      (writeBlockWhole d' setup tmp left i s') := by
  induction left generalizing i s s' with
  | zero => exact .intro hs
  | succ left ih =>
      obtain ⟨status, t, t', h1, h2, ht⟩ := h.out ((tmp.drop (i * 64)).take 64)
        (issued_writeBlock setup) hs
      simp only [writeBlockWhole, h1, h2]
      split
      · exact .intro ht
      · exact ih _ ht

theorem writeBlock_alike (h : Device.Alike Issued R d d') (address : UInt) (command : Byte)
    (data : List Byte) (len : Byte) (hs : R s s') :
    SameResult R (Fx2lp.writeBlock d address command data len s)
      (Fx2lp.writeBlock d' address command data len s') := by
  obtain ⟨res, t, t', h1, h2, ht⟩ := writeBlockWhole_alike h (setupOf address command)
    (len :: data.take len.toNat) ((len.toNat + 1) / 64) 0 hs
  simp only [Fx2lp.writeBlock, h1, h2]
  cases res with
  | error status => exact .intro ht
  | ok =>
      obtain ⟨status, u, u', h3, h4, hu⟩ := h.out
        (((len :: data.take len.toNat).drop ((len.toNat + 1) / 64 * 64)).take
          (len.toNat + 1 - (len.toNat + 1) / 64 * 64))
        (issued_writeBlock (setupOf address command)) ht
      simp only [h3, h4]
      split
      · split
        · exact .intro hu
        · exact .intro hu
      · exact .intro ht

/-- A whole chunk is a request for 64 bytes. -/
theorem issued_whole {cmd : Byte} (hcmd : cmd = smbWrite ∨ cmd = smbRead) (flags : Word) :
    Issued cmd ⟨64, flags⟩ := .inr (.inr ⟨hcmd, Nat.le_refl 64⟩)

/-- The remainder is a request for less. -/
theorem issued_rest {cmd : Byte} (hcmd : cmd = smbWrite ∨ cmd = smbRead)
    (len : Nat) (flags : Word) :
    Issued cmd ⟨BitVec.ofNat 16 (len - len / 64 * 64), flags⟩ := by
  refine .inr (.inr ⟨hcmd, ?_⟩)
  simp only [BitVec.toNat_ofNat]
  omega

theorem writeWhole_alike (h : Device.Alike Issued R d d') (stop : Byte) (data : List Byte)
    (wholeWrites remainder left i : Nat) (rs : Byte) (status : Int) (hs : R s s') :
    SameResult R (writeWhole d stop data wholeWrites remainder left i rs status s)
      (writeWhole d' stop data wholeWrites remainder left i rs status s') := by
  induction left generalizing i rs status s s' with
  | zero => exact .intro hs
  | succ left ih =>
      rw [writeWhole, writeWhole]
      generalize (if i + 1 = wholeWrites ∧ remainder = 0 ∧ stop ≠ 0 then rs ||| writeCmdStopAfter
        else rs) = rs
      obtain ⟨status, t, t', h1, h2, ht⟩ := h.out ((data.drop (i * 64)).take 64)
        (issued_whole (.inl rfl) (rs.setWidth 16)) hs
      simp only [h1, h2]
      split
      · exact .intro ht
      · exact ih _ _ _ ht

theorem write_alike (h : Device.Alike Issued R d d') (status : Int) (start restart stop : Byte)
    (data : List Byte) (hs : R s s') :
    SameResult R (Fx2lp.write d status start restart stop data s)
      (Fx2lp.write d' status start restart stop data s') := by
  rw [Fx2lp.write, Fx2lp.write]
  generalize (if restart ≠ 0 then _ else _ : Byte) = rs
  obtain ⟨res, t, t', h1, h2, ht⟩ := writeWhole_alike h stop data (data.length / 64)
    (data.length - data.length / 64 * 64) (data.length / 64) 0 rs status hs
  simp only [h1, h2]
  cases res with
  | error status => exact .intro ht
  | ok v =>
      obtain ⟨rs, status⟩ := v
      dsimp only
      split
      · generalize (if stop ≠ 0 then rs ||| writeCmdStopAfter else rs) = rs
        obtain ⟨status, u, u', h3, h4, hu⟩ := h.out ((data.drop (data.length / 64 * 64)).take
          (data.length - data.length / 64 * 64))
          (issued_rest (.inl rfl) data.length (rs.setWidth 16)) ht
        simp only [h3, h4]
        exact .intro hu
      · exact .intro ht

/-- The same result and the same buffer, in related states. -/
def SameRead {A : Type} (R : S → S' → Prop) (r : A × Mem Byte × S) (r' : A × Mem Byte × S') :
    Prop := ∃ a data t t', r = (a, data, t) ∧ r' = (a, data, t') ∧ R t t'

theorem readWhole_alike (h : Device.Alike Issued R d d') (lastRead : Byte)
    (wholeReads remainder left i : Nat) (rs : Byte) (status : Int) (data : Mem Byte) (hs : R s s') :
    SameRead R (readWhole d lastRead wholeReads remainder left i rs status data s)
      (readWhole d' lastRead wholeReads remainder left i rs status data s') := by
  induction left generalizing i rs status data s s' with
  | zero => exact ⟨_, _, s, s', rfl, rfl, hs⟩
  | succ left ih =>
      rw [readWhole, readWhole]
      generalize (if lastRead ≠ 0 ∧ i + 1 = wholeReads ∧ remainder = 0 then rs ||| readCmdLastRead
        else rs) = rs
      obtain ⟨⟨status, bytes⟩, t, t', h1, h2, ht⟩ := h.inp 64
        (issued_whole (.inr rfl) (rs.setWidth 16)) hs
      simp only [h1, h2]
      split
      · exact ⟨_, _, t, t', rfl, rfl, ht⟩
      · exact ih _ _ _ _ ht

theorem read_alike (h : Device.Alike Issued R d d') (status : Int) (len : Nat) (data : Mem Byte)
    (lastRead : Byte) (hs : R s s') :
    SameRead R (Fx2lp.read d status len data lastRead s)
      (Fx2lp.read d' status len data lastRead s') := by
  obtain ⟨res, data, t, t', h1, h2, ht⟩ := readWhole_alike h lastRead (len / 64)
    (len - len / 64 * 64) (len / 64) 0 readCmdFirstRead status data hs
  simp only [Fx2lp.read, h1, h2]
  cases res with
  | error status => exact ⟨_, _, t, t', rfl, rfl, ht⟩
  | ok v =>
      obtain ⟨rs, status⟩ := v
      dsimp only
      split
      · generalize (if lastRead ≠ 0 then rs ||| readCmdLastRead else rs) = rs
        obtain ⟨⟨status, bytes⟩, u, u', h3, h4, hu⟩ := h.inp (len - len / 64 * 64)
          (issued_rest (.inr rfl) len (rs.setWidth 16)) ht
        simp only [h3, h4]
        exact ⟨_, _, u, u', rfl, rfl, hu⟩
      · exact ⟨_, _, t, t', rfl, rfl, ht⟩

end

/-! ## Calls -/

/-- A call of a block or transaction function. -/
inductive HostCall where
  | readBlock (fuel : Nat) (address : UInt) (command : Byte) (data : Mem Byte)
  | writeBlock (address : UInt) (command : Byte) (data : List Byte) (len : Byte)
  | write (status : Int) (start restart stop : Byte) (data : List Byte)
  | read (status : Int) (len : Nat) (data : Mem Byte) (lastRead : Byte)

/-- The state of a device after a call. -/
def HostCall.run {S : Type} (d : Device S) (c : HostCall) (s : S) : S :=
  match c with
  | .readBlock fuel address command data => (Fx2lp.readBlock d fuel address command data s).2
  | .writeBlock address command data len => (Fx2lp.writeBlock d address command data len s).2
  | .write status start restart stop data =>
      (Fx2lp.write d status start restart stop data s).2
  | .read status len data lastRead => (Fx2lp.read d status len data lastRead s).2.2

/-- What is true of every transfer is true of a call. -/
theorem HostCall.run_alike {S S' : Type} {R : S → S' → Prop} {d : Device S} {d' : Device S'}
    (h : Device.Alike Issued R d d') (c : HostCall) {s : S} {s' : S'} (hs : R s s') :
    R (c.run d s) (c.run d' s') := by
  cases c with
  | readBlock fuel address command data =>
      obtain ⟨_, t, t', h1, h2, ht⟩ := readBlock_alike h fuel address command data hs
      rw [HostCall.run, HostCall.run, h1, h2]
      exact ht
  | writeBlock address command data len =>
      obtain ⟨_, t, t', h1, h2, ht⟩ := writeBlock_alike h address command data len hs
      rw [HostCall.run, HostCall.run, h1, h2]
      exact ht
  | write status start restart stop data =>
      obtain ⟨_, t, t', h1, h2, ht⟩ := write_alike h status start restart stop data hs
      rw [HostCall.run, HostCall.run, h1, h2]
      exact ht
  | read status len data lastRead =>
      obtain ⟨_, _, t, t', h1, h2, ht⟩ := read_alike h status len data lastRead hs
      rw [HostCall.run, HostCall.run, h1, h2]
      exact ht

/-- A request that reached the firmware, and the state it was handled in. -/
structure Arrival where
  cmd : Byte
  setup : Setup
  fx2 : Fx2

/-- The firmware behind USB, with a list of the requests that arrived. -/
def noted (T : Target) (way : Nat → Delivery) : Device (Link × List Arrival) where
  out cmd setup data s :=
    let r := (usb T way).out cmd setup data s.1
    (r.1, r.2, s.2 ++ if (way s.1.sent).fate.arrives then
      [⟨cmd, setup, (s.1.fx2.tick (way s.1.sent).gap).load data⟩] else [])
  inp cmd setup length s :=
    let r := (usb T way).inp cmd setup length s.1
    (r.1, r.2, s.2 ++ if (way s.1.sent).fate.arrives then
      [⟨cmd, setup, s.1.fx2.tick (way s.1.sent).gap⟩] else [])

/-- A `WRITE_BLOCK` request has a count that fits, if it opens a block. -/
def Arrival.Fits (a : Arrival) : Prop := a.cmd = smbWriteBlock → a.fx2.BlockFits

/-- A call and what becomes of its transfers. -/
structure HostStep where
  call : HostCall
  way : Nat → Delivery

namespace HostStep

variable (T : Target)

/-- The firmware after a call. -/
def next (s : Fx2) (c : HostStep) : Fx2 := (c.call.run (usb T c.way) ⟨s, 0⟩).fx2

/-- The requests of a call that reach the firmware. -/
def arrivals (s : Fx2) (c : HostStep) : List Arrival :=
  (c.call.run (noted T c.way) (⟨s, 0⟩, [])).2

end HostStep

/-! ## Runs -/

section

variable {T : Target} {way : Nat → Delivery} {cmd : Byte} {setup : Setup} {l : Link}

theorem loopFuel_le : 256 ≤ loopFuel := Nat.le_refl _

/-- One transfer, if it fits when it arrives. -/
theorem out_inBounds (hcmd : Issued cmd setup) (data : List Byte) (hs : l.fx2.InBounds)
    (hfits : (way l.sent).fate.arrives = true →
      Arrival.Fits ⟨cmd, setup, (l.fx2.tick (way l.sent).gap).load data⟩) :
    ((usb T way).out cmd setup data l).2.fx2.InBounds := by
  by_cases harr : (way l.sent).fate.arrives = true
  · have hin := hs.tick (way l.sent).gap
    have hin : ((l.fx2.tick (way l.sent).gap).load data).InBounds := ⟨hin.ptr, hin.len, hin.oob⟩
    obtain ⟨ok, s', hrun, hin'⟩ := handleVendorcommand_inBounds T loopFuel_le hcmd hin (hfits harr)
    obtain ⟨status, hout, -⟩ := usb_out_served harr (serve_of_run cmd hrun)
    rw [hout]
    exact hin'
  · obtain ⟨status, -, hout⟩ := usb_out_lost T way cmd setup data (by simpa using harr)
    rw [hout]
    exact hs.tick _

theorem inp_inBounds (hcmd : Issued cmd setup) (length : Nat) (hs : l.fx2.InBounds)
    (hfits : (way l.sent).fate.arrives = true →
      Arrival.Fits ⟨cmd, setup, l.fx2.tick (way l.sent).gap⟩) :
    ((usb T way).inp cmd setup length l).2.fx2.InBounds := by
  by_cases harr : (way l.sent).fate.arrives = true
  · obtain ⟨ok, s', hrun, hin'⟩ := handleVendorcommand_inBounds T loopFuel_le hcmd
      (hs.tick (way l.sent).gap) (hfits harr)
    obtain ⟨status, -, hinp⟩ := usb_inp_served way length harr (serve_of_run cmd hrun)
    rw [hinp]
    exact hin'
  · obtain ⟨status, -, hinp⟩ := usb_inp_lost T way cmd setup length (by simpa using harr)
    rw [hinp]
    exact hs.tick _

end

/-- As long as the requests that arrived fit, the firmware has stayed in its arrays. -/
structure Guarded (l : Link) (s : Link × List Arrival) : Prop where
  same : l = s.1
  bounds : (∀ a ∈ s.2, a.Fits) → l.fx2.InBounds

/-- One transfer. -/
theorem guarded_alike (T : Target) (way : Nat → Delivery) :
    Device.Alike Issued Guarded (usb T way) (noted T way) where
  out {cmd setup l s} data hcmd hs := by
    obtain ⟨l, log⟩ := s
    obtain ⟨rfl, hbounds⟩ := hs
    refine ⟨_, ((usb T way).out cmd setup data l).2, _, rfl, rfl, rfl, fun hfits => ?_⟩
    refine out_inBounds hcmd data (hbounds fun a ha => hfits a (List.mem_append_left _ ha)) ?_
    intro harr
    exact hfits _ (List.mem_append_right _ (by rw [if_pos harr]; exact List.mem_singleton_self _))
  inp {cmd setup l s} length hcmd hs := by
    obtain ⟨l, log⟩ := s
    obtain ⟨rfl, hbounds⟩ := hs
    refine ⟨_, ((usb T way).inp cmd setup length l).2, _, rfl, rfl, rfl, fun hfits => ?_⟩
    refine inp_inBounds hcmd length (hbounds fun a ha => hfits a (List.mem_append_left _ ha)) ?_
    intro harr
    exact hfits _ (List.mem_append_right _ (by rw [if_pos harr]; exact List.mem_singleton_self _))

/-- One call. -/
theorem next_inBounds (T : Target) {s : Fx2} {c : HostStep} (hs : s.InBounds)
    (hfits : ∀ a ∈ c.arrivals T s, a.Fits) : (c.next T s).InBounds :=
  (HostCall.run_alike (guarded_alike T c.way) c.call ⟨rfl, fun _ => hs⟩).bounds hfits

/-- In every run of calls whose `WRITE_BLOCK` requests fit, no access has been past the end
of `temp` or `EP0BUF`. -/
theorem inBounds_run (T : Target) {s : Fx2} {run : List HostStep} (hs : s.InBounds)
    (hrun : EveryStep (HostStep.next T) (fun s c => ∀ a ∈ c.arrivals T s, a.Fits) s run) :
    EveryStep (HostStep.next T) (fun s c => (c.next T s).oob = false) s run :=
  everyStep_of_invariant Fx2.InBounds
    (fun _ _ hs hfits => ⟨(next_inBounds T hs hfits).oob, next_inBounds T hs hfits⟩) hs hrun

/-- A block write, a block read and an arbitrary transaction, with the transfers delivered
at once. -/
def mixedRun : List HostStep :=
  [⟨.writeBlock 0x16 0x20 [1, 2, 3] 3, Delivery.all 0⟩,
    ⟨.readBlock 4 0x16 0x23 (fun _ => 0), Delivery.all 0⟩,
    ⟨.write 0 1 0 0 [0x16, 0x23], Delivery.all 0⟩, ⟨.write 0 0 1 0 [0x17], Delivery.all 0⟩,
    ⟨.read 0 2 (fun _ => 0) 1, Delivery.all 0⟩]

instance (s : Fx2) : Decidable s.BlockFits := inferInstanceAs (Decidable (_ → _ ∧ _))

instance (a : Arrival) : Decidable a.Fits := inferInstanceAs (Decidable (_ → _))

theorem inBounds_mixed :
    EveryStep (HostStep.next (.answers [3, 1, 2, 4, 0]))
      (fun s c => (c.next (.answers [3, 1, 2, 4, 0]) s).oob = false) Fx2.init mixedRun :=
  inBounds_run (.answers [3, 1, 2, 4, 0]) ⟨Nat.le_refl _, Nat.zero_le _, rfl⟩
    ⟨by decide +kernel, by decide +kernel, by decide +kernel, by decide +kernel, by decide +kernel,
      trivial⟩

/-- A block write of more bytes than `temp` holds stores behind its end, whatever the target
does. -/
theorem oob_of_long (T : Target) {way : Nat → Delivery} (address : UInt) (command : Byte)
    {data : List Byte} {len : Byte} {s : Fx2} (hdel : ∀ k, (way k).fate = .delivered)
    (htime : InTime way (chunks 64 (len :: data)).length) (hidle : s.templen = 0)
    (hlen : data.length = len.toNat) (hlong : tempSize < data.length) :
    (Fx2lp.writeBlock (usb T way) address command data len ⟨s, 0⟩).2.fx2.oob = true := by
  have htemp : tempSize = 192 := rfl
  have hcount : len = BitVec.ofNat 8 data.length := by
    rw [hlen, BitVec.ofNat_toNat, BitVec.setWidth_eq]
  have hout := sendChunks_outcome (l := ⟨s, 0⟩) T (setupOf address command) data way rfl (by omega)
    (by omega) (fun _ => by rw [Fx2.expire_of_empty (s := s.tick (way 0).gap) hidle]; exact hidle)
    (by rw [← hcount]; exact htime)
  rw [writeBlock_eq_sendChunks _ _ _ _ _ _ hlen]
  rw [← hcount] at hout
  generalize sendChunks (usb T way) (setupOf address command) (chunks 64 (len :: data)) ⟨s, 0⟩ = r
    at hout ⊢
  cases hout with
  | unsent _ hfate _ =>
      obtain ⟨k, hk⟩ := hfate
      exact absurd (hdel k) hk
  | @sent res l b _ _ _ hoob _ _ =>
      rw [decide_eq_true hlong, Bool.or_true] at hoob
      cases res <;> exact hoob

theorem not_inBounds_of_long (T : Target) {data : List Byte} {len : Byte}
    (hlen : data.length = len.toNat) (hlong : tempSize < data.length) :
    ¬ EveryStep (HostStep.next T) (fun s c => (c.next T s).oob = false) Fx2.init
      [⟨.writeBlock 0x16 0x20 data len, Delivery.all 0⟩] := by
  rintro ⟨h, -⟩
  exact Bool.noConfusion (h.symm.trans (oob_of_long (s := Fx2.init) T 0x16 0x20
    (Delivery.all_delivered 0) (inTime_all_zero _) rfl hlen hlong))

theorem not_inBounds_sevens :
    ¬ EveryStep (HostStep.next (.answers []))
      (fun s c => (c.next (.answers []) s).oob = false) Fx2.init
      [⟨.writeBlock 0x16 0x20 (List.replicate 200 7) 200, Delivery.all 0⟩] :=
  not_inBounds_of_long _ (List.length_replicate ..) (by rw [List.length_replicate]; decide)

end Smbusb
